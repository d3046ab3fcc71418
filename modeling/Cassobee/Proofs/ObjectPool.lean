import Cassobee.ObjectPool
import Cassobee.Support.Chain
import Cassobee.Support.Run
import Mathlib.Data.List.Nodup
import Mathlib.Data.List.Range

/-! What the free list, `_size` and `_obj_map` say of each other. An object is entered into the map
when it is made and taken out when it is first given back, so from then on only its index is of use. -/

namespace Cassobee
open Support

namespace ObjectPool

def nexts (pool : ObjectPool) (index : Nat) : Option Nat := (pool.nodes index).next

def objs (pool : ObjectPool) (index : Nat) : Option Nat := (pool.nodes index).obj

/-- The books of a pool of which the nodes `out` are not in the free list and the objects `returned`
have been given back at some time. -/
structure Books (pool : ObjectPool) (out returned : List Nat) : Prop where
  created : pool.created = true
  bounded : pool.cap ≤ objectPoolMax
  chained : ∃ chain, Chain pool.nexts pool.free chain ∧ (chain ++ out).Perm (List.range pool.cap)
  counted : pool.size = out.length
  known (index obj : Nat) (here : pool.objs index = some obj) : obj < pool.made
  single (index index' obj : Nat) (here : pool.objs index = some obj) (there : pool.objs index' = some obj) : index = index'
  filled (index : Nat) (given : index ∈ out) : ∃ obj, pool.objs index = some obj
  mapped (index obj : Nat) : pool.objMap obj = some index ↔ pool.objs index = some obj ∧ obj ∉ returned
  passed (obj : Nat) (before : obj ∈ returned) : obj < pool.made

namespace Books
variable {pool : ObjectPool} {out returned : List Nat}

theorem within (books : Books pool out returned) {index : Nat} (given : index ∈ out) : index < pool.cap := by
  obtain ⟨chain, -, all⟩ := books.chained
  exact List.mem_range.1 (all.subset (List.mem_append_right _ given))

theorem distinct (books : Books pool out returned) : out.Nodup := by
  obtain ⟨chain, -, all⟩ := books.chained
  exact (List.nodup_append.1 (all.nodup_iff.2 List.nodup_range)).2.1

theorem atMost (books : Books pool out returned) : out.length ≤ pool.cap := by
  obtain ⟨chain, -, all⟩ := books.chained
  have total := all.length_eq
  rw [List.length_append, List.length_range] at total
  omega

theorem size_lt (books : Books pool out returned) : pool.size + 1 < 2 ^ 64 := by
  have few := books.atMost
  have small := books.bounded
  rw [books.counted]
  unfold objectPoolMax at small
  omega

/-- The books do not depend on the order in which the nodes went out. -/
theorem perm {out' : List Nat} (books : Books pool out returned) (same : out.Perm out') : Books pool out' returned where
  created := books.created
  bounded := books.bounded
  chained := by
    obtain ⟨chain, linked, all⟩ := books.chained
    exact ⟨chain, linked, (same.symm.append_left chain).trans all⟩
  counted := books.counted.trans same.length_eq
  known := books.known
  single := books.single
  filled := fun index given => books.filled index (same.mem_iff.2 given)
  mapped := books.mapped
  passed := books.passed

end Books
end ObjectPool

namespace PoolClients

/-- What clients may expect of a pool of the capacity `cap`. -/
structure Sound (cap : Nat) (clients : PoolClients) : Prop where
  distinct : (clients.held.map (·.1)).Nodup
  free : ∃ chain, Chain clients.pool.nexts clients.pool.free chain ∧ chain.Nodup ∧
    ∀ index, index ∈ chain ↔ index < cap ∧ index ∉ clients.held.map (·.1)
  size : clients.pool.size = clients.held.length
  alloc : ∃ given after, clients.pool.alloc = some (given, after) ∧ (given = none ↔ clients.held.length = cap)

/-- No object is given back by its address once it has been given back before. -/
def FirstReturn (clients : PoolClients) : PoolCall → Prop
  | .freeObj obj => obj ∈ clients.held.map (·.2) → obj ∉ clients.returned
  | _ => True

end PoolClients

namespace Proofs
open ObjectPool
variable {pool : ObjectPool} {out returned : List Nat}

theorem init_books {capacity : Nat} {started : ObjectPool} (inited : ({} : ObjectPool).init capacity = some started) :
    Books started [] [] ∧ started.cap = capacity ∧ started.made = 0 := by
  simp only [ObjectPool.init, Bool.false_eq_true, if_false, Option.ite_none_right_eq_some, Option.some.injEq] at inited
  obtain ⟨⟨positive, small⟩, rfl⟩ := inited
  refine ⟨⟨rfl, small, ⟨List.range capacity, ?_, by simp⟩, rfl, ?_, ?_, ?_, ?_, ?_⟩, rfl, rfl⟩
  · apply Chain.range positive
    · intro index before
      simp [nexts, before]
    · simp [nexts]
  · intro index obj here
    cases here
  · intro index index' obj here
    cases here
  · intro index given
    cases given
  · intro index obj
    constructor
    · intro here
      cases here
    · intro here
      cases here.1
  · intro obj before
    cases before

/-- What `alloc` leaves as it is: the capacity and the object of every node that is out. -/
structure Allocated (pool after : ObjectPool) (out returned : List Nat) (index obj : Nat) : Prop where
  books : Books after (index :: out) returned
  cap : after.cap = pool.cap
  unheld : index ∉ out
  holds : after.objs index = some obj
  others (given : Nat) (held : given ∈ out) : after.objs given = pool.objs given

private theorem alloc_again {index obj : Nat} {chain : List Nat} (books : Books pool out returned)
    (linked : Chain pool.nexts (pool.nexts index) chain) (all : (index :: chain ++ out).Perm (List.range pool.cap))
    (here : pool.objs index = some obj) :
    Allocated pool { pool with free := pool.nexts index, size := (pool.size + 1) % 2 ^ 64 } out returned index obj := by
  have small := books.size_lt
  have apart : index ∉ out := by
    have distinct := all.nodup_iff.2 List.nodup_range
    rw [List.cons_append, List.nodup_cons] at distinct
    exact fun given => distinct.1 (List.mem_append_right _ given)
  refine ⟨⟨books.created, books.bounded, ⟨chain, linked, ?_⟩, ?_, books.known, books.single, ?_, books.mapped, books.passed⟩,
    rfl, apart, here, fun _ _ => rfl⟩
  · exact List.perm_middle.trans all
  · simp only [List.length_cons, ← books.counted]
    omega
  · intro given member
    rcases List.mem_cons.1 member with rfl | member
    · exact ⟨obj, here⟩
    · exact books.filled given member

private theorem alloc_fresh {index : Nat} {chain : List Nat} (books : Books pool out returned)
    (linked : Chain pool.nexts (pool.nexts index) chain) (all : (index :: chain ++ out).Perm (List.range pool.cap))
    (empty : pool.objs index = none) :
    Allocated pool
      { pool with
        free := pool.nexts index
        nodes := Function.update pool.nodes index { pool.nodes index with obj := some pool.made }
        objMap := Function.update pool.objMap pool.made (some index)
        made := pool.made + 1
        size := (pool.size + 1) % 2 ^ 64 } out returned index pool.made := by
  set after : ObjectPool := { pool with
    free := pool.nexts index
    nodes := Function.update pool.nodes index { pool.nodes index with obj := some pool.made }
    objMap := Function.update pool.objMap pool.made (some index)
    made := pool.made + 1
    size := (pool.size + 1) % 2 ^ 64 } with after_eq
  have nexts_same (given : Nat) : after.nexts given = pool.nexts given := by
    by_cases same : given = index <;> simp [after_eq, nexts, same]
  have objs_here : after.objs index = some pool.made := by simp [after_eq, objs]
  have objs_other (given : Nat) (other : given ≠ index) : after.objs given = pool.objs given := by
    simp [after_eq, objs, other]
  have distinct := all.nodup_iff.2 List.nodup_range
  rw [List.cons_append, List.nodup_cons, List.mem_append, not_or] at distinct
  have small := books.size_lt
  have unmapped (obj : Nat) (unknown : pool.made ≤ obj) (given : Nat) : pool.objs given ≠ some obj := by
    intro here
    have := books.known given obj here
    omega
  refine ⟨⟨books.created, books.bounded, ⟨chain, ?_, List.perm_middle.trans all⟩, ?_, ?_, ?_, ?_, ?_, ?_⟩, rfl,
    distinct.1.2, objs_here, fun given held => objs_other given fun same => distinct.1.2 (same ▸ held)⟩
  · exact Chain.frame linked fun given _ => nexts_same given
  · simp only [after_eq, List.length_cons, ← books.counted]
    omega
  · intro given obj here
    by_cases same : given = index
    · subst same
      rw [objs_here] at here
      cases here
      exact Nat.lt_succ_self _
    · rw [objs_other given same] at here
      exact Nat.lt_succ_of_lt (books.known given obj here)
  · intro first second obj here there
    by_cases same : first = index <;> by_cases same' : second = index
    · rw [same, same']
    · rw [same, objs_here] at here
      rw [objs_other second same'] at there
      cases here
      exact absurd there (unmapped _ (Nat.le_refl _) second)
    · rw [same', objs_here] at there
      rw [objs_other first same] at here
      cases there
      exact absurd here (unmapped _ (Nat.le_refl _) first)
    · rw [objs_other first same] at here
      rw [objs_other second same'] at there
      exact books.single first second obj here there
  · intro given member
    by_cases same : given = index
    · exact ⟨pool.made, same ▸ objs_here⟩
    · rw [objs_other given same]
      exact books.filled given ((List.mem_cons.1 member).resolve_left same)
  · intro given obj
    have map_eq : after.objMap obj = if obj = pool.made then some index else pool.objMap obj := by
      simp [after_eq, Function.update_apply]
    rw [map_eq]
    by_cases new : obj = pool.made
    · subst new
      rw [if_pos rfl]
      have fresh : pool.made ∉ returned := fun before => Nat.lt_irrefl _ (books.passed _ before)
      by_cases same : given = index
      · subst same
        exact ⟨fun _ => ⟨objs_here, fresh⟩, fun _ => rfl⟩
      · rw [objs_other given same]
        refine ⟨fun here => ?_, fun here => absurd here.1 (unmapped _ (Nat.le_refl _) given)⟩
        cases here
        exact absurd rfl same
    · rw [if_neg new, books.mapped]
      by_cases same : given = index
      · subst same
        rw [objs_here, empty]
        constructor
        · intro here
          cases here.1
        · intro here
          cases here.1
          exact absurd rfl new
      · rw [objs_other given same]
  · intro obj before
    exact Nat.lt_succ_of_lt (books.passed obj before)

/-- `alloc` fails exactly when every node is out, and never reads through a null `_free`. -/
theorem alloc_books (books : Books pool out returned) :
    (out.length = pool.cap ∧ pool.alloc = some (none, pool)) ∨
    (out.length < pool.cap ∧ ∃ index obj after, pool.alloc = some (some (index, obj), after) ∧
      Allocated pool after out returned index obj) := by
  obtain ⟨chain, linked, all⟩ := books.chained
  have total := all.length_eq
  rw [List.length_append, List.length_range] at total
  rw [← books.counted]
  rw [← books.counted] at total
  unfold ObjectPool.alloc
  by_cases full : pool.size = pool.cap
  · exact .inl ⟨full, by simp [full]⟩
  · refine .inr ⟨by omega, ?_⟩
    rw [if_neg (by simp [books.created]), if_neg full]
    cases head : pool.free with
    | none =>
      rw [head] at linked
      rw [Chain.ends linked] at total
      exact absurd (by simpa using total) full
    | some index =>
      rw [head] at linked
      obtain ⟨rest, rfl, after⟩ := Chain.starts linked
      cases here : pool.objs index with
      | none =>
        have empty : (pool.nodes index).obj = none := here
        simp only [empty]
        exact ⟨index, _, _, rfl, alloc_fresh books after all here⟩
      | some obj =>
        have filled : (pool.nodes index).obj = some obj := here
        simp only [filled]
        exact ⟨index, _, _, rfl, alloc_again books after all here⟩

private theorem putBack_size {index obj : Nat} (some_out : 0 < pool.size) (small : pool.size + 1 < 2 ^ 64) :
    ((pool.forget obj).putBack index).size = pool.size - 1 := by
  simp only [putBack, forget]
  omega

/-- Taking the object out of the map and putting its node in front of the free list. -/
theorem putBack_books {index obj : Nat} (books : Books pool out returned) (given : index ∈ out)
    (here : pool.objs index = some obj) :
    Books ((pool.forget obj).putBack index) (out.erase index) (obj :: returned) := by
  set after := (pool.forget obj).putBack index with after_eq
  have nexts_here : after.nexts index = pool.free := by simp [after_eq, nexts, putBack, forget]
  have nexts_other (node : Nat) (other : node ≠ index) : after.nexts node = pool.nexts node := by
    simp [after_eq, nexts, putBack, forget, other]
  have objs_same : after.objs = pool.objs := by
    funext node
    by_cases same : node = index <;> simp [after_eq, objs, putBack, forget, same]
  have map_eq (other : Nat) : after.objMap other = if other = obj then none else pool.objMap other := by
    simp [after_eq, putBack, forget, Function.update_apply]
  have some_out : 0 < out.length := List.length_pos_of_mem given
  have small := books.size_lt
  obtain ⟨chain, linked, all⟩ := books.chained
  have distinct := all.nodup_iff.2 List.nodup_range
  refine ⟨books.created, books.bounded, ⟨index :: chain, ⟨rfl, ?_⟩, ?_⟩, ?_, ?_, ?_, ?_, ?_, ?_⟩
  · rw [nexts_here]
    refine Chain.frame linked fun node member => nexts_other node ?_
    rintro rfl
    exact (List.nodup_append.1 distinct).2.2 node member node given rfl
  · have moved : (index :: chain ++ out.erase index).Perm (chain ++ out) :=
      List.perm_middle.symm.trans ((List.perm_cons_erase given).symm.append_left chain)
    exact moved.trans all
  · rw [List.length_erase_of_mem given, ← books.counted]
    rw [← books.counted] at some_out
    exact putBack_size some_out small
  · rw [objs_same]
    exact books.known
  · rw [objs_same]
    exact books.single
  · rw [objs_same]
    exact fun node member => books.filled node (List.mem_of_mem_erase member)
  · intro node other
    rw [map_eq, objs_same]
    by_cases same : other = obj
    · subst same
      simp
    · rw [if_neg same, books.mapped, List.mem_cons, not_or]
      exact ⟨fun both => ⟨both.1, same, both.2⟩, fun both => ⟨both.1, both.2.2⟩⟩
  · intro other before
    rcases List.mem_cons.1 before with rfl | before
    · exact books.known index _ here
    · exact books.passed other before

theorem freeIdx_books {index obj : Nat} (books : Books pool out returned) (given : index ∈ out)
    (here : pool.objs index = some obj) : Books (pool.freeIdx index) (out.erase index) (obj :: returned) := by
  have filled : (pool.nodes index).obj = some obj := here
  have same : pool.freeIdx index = (pool.forget obj).putBack index := by
    simp only [freeIdx, books.within given, if_true, filled]
  rw [same]
  exact putBack_books books given here

/-- The first return of an object by its address. -/
theorem freeObj_books {index obj : Nat} (books : Books pool out returned) (given : index ∈ out)
    (here : pool.objs index = some obj) (first : obj ∉ returned) :
    Books (pool.freeObj obj) (out.erase index) (obj :: returned) := by
  have mapped := (books.mapped index obj).2 ⟨here, first⟩
  have same : pool.freeObj obj = (pool.forget obj).putBack index := by
    simp only [freeObj, mapped, books.within given, if_true]
  rw [same]
  exact putBack_books books given here

/-- Any later one does nothing. -/
theorem freeObj_returned {obj : Nat} (books : Books pool out returned) (before : obj ∈ returned) :
    pool.freeObj obj = pool := by
  have unmapped : pool.objMap obj = none := by
    rw [Option.eq_none_iff_forall_not_mem]
    intro index mapped
    exact ((books.mapped index obj).1 mapped).2 before
  simp only [freeObj, unmapped]

open PoolClients

/-- The clients' own account agrees with the books, but for the nodes `lost`, which are out and which
no client holds. -/
structure Accounted (cap : Nat) (lost : List Nat) (clients : PoolClients) : Prop where
  books : Books clients.pool (clients.held.map (·.1) ++ lost) clients.returned
  cap : clients.pool.cap = cap
  objects (item : Nat × Nat) (held : item ∈ clients.held) : clients.pool.objs item.1 = some item.2

variable {cap : Nat} {lost : List Nat} {clients after : PoolClients} {call : PoolCall}

theorem Accounted.sound (accounted : Accounted cap [] clients) : Sound cap clients := by
  have books := accounted.books
  rw [List.append_nil] at books
  refine ⟨books.distinct, ?_, by simpa using books.counted, ?_⟩
  · obtain ⟨chain, linked, all⟩ := books.chained
    have distinct := List.nodup_append.1 (all.nodup_iff.2 List.nodup_range)
    refine ⟨chain, linked, distinct.1, fun index => ?_⟩
    rw [← accounted.cap, ← List.mem_range, ← all.mem_iff, List.mem_append]
    constructor
    · exact fun free => ⟨.inl free, fun given => distinct.2.2 index free index given rfl⟩
    · exact fun both => both.1.resolve_right both.2
  · rcases alloc_books books with ⟨full, none_left⟩ | ⟨room, index, obj, pool, given, -⟩
    · exact ⟨none, _, none_left, by simpa [accounted.cap] using full⟩
    · refine ⟨_, _, given, ?_⟩
      simp only [List.length_map, accounted.cap] at room
      simp only [reduceCtorEq, false_iff]
      omega

private theorem map_erase {held : List (Nat × Nat)} (distinct : (held.map (·.1)).Nodup) {item : Nat × Nat}
    (member : item ∈ held) : (held.map (·.1)).erase item.1 = (held.erase item).map (·.1) := by
  induction held with
  | nil => cases member
  | cons first rest ih =>
    rw [List.map_cons, List.nodup_cons] at distinct
    by_cases same : item = first
    · subst same
      simp
    · have later : item ∈ rest := (List.mem_cons.1 member).resolve_left same
      have apart : first.1 ≠ item.1 := fun equal => distinct.1 (equal ▸ List.mem_map_of_mem later)
      rw [List.map_cons, List.erase_cons_tail (by simpa using apart), List.erase_cons_tail (by simpa using Ne.symm same),
        List.map_cons, ih distinct.2 later]

/-- Giving an item back, whichever way the pool was told. -/
theorem Accounted.give {pool : ObjectPool} {item : Nat × Nat} (accounted : Accounted cap lost clients)
    (held : item ∈ clients.held)
    (books : Books pool ((clients.held.map (·.1) ++ lost).erase item.1) (item.2 :: clients.returned))
    (kept : pool.cap = clients.pool.cap) (objects : pool.objs = clients.pool.objs) :
    Accounted cap lost ⟨pool, clients.held.erase item, item.2 :: clients.returned⟩ where
  books := by
    have distinct := (List.nodup_append.1 accounted.books.distinct).1
    rw [List.erase_append_left _ (List.mem_map_of_mem held), map_erase distinct held] at books
    exact books
  cap := kept.trans accounted.cap
  objects := by
    intro other member
    rw [objects]
    exact accounted.objects other (List.mem_of_mem_erase member)

/-- Giving an item back to a pool that ignores it: the node is lost. -/
theorem Accounted.lose {item : Nat × Nat} (accounted : Accounted cap lost clients) (held : item ∈ clients.held)
    (before : item.2 ∈ clients.returned) :
    Accounted cap (item.1 :: lost) ⟨clients.pool, clients.held.erase item, item.2 :: clients.returned⟩ where
  books := by
    have distinct := (List.nodup_append.1 accounted.books.distinct).1
    have moved : (clients.held.map (·.1) ++ lost).Perm ((clients.held.erase item).map (·.1) ++ item.1 :: lost) := by
      rw [← map_erase distinct held]
      have taken := (List.perm_cons_erase (List.mem_map_of_mem (f := (·.1)) held)).append_right lost
      exact taken.trans List.perm_middle.symm
    have books := accounted.books.perm moved
    refine ⟨books.created, books.bounded, books.chained, books.counted, books.known, books.single, books.filled, ?_, ?_⟩
    · intro index obj
      rw [books.mapped, List.mem_cons, not_or]
      refine ⟨fun both => ⟨both.1, fun same => both.2 (same ▸ before), both.2⟩, fun both => ⟨both.1, both.2.2⟩⟩
    · intro obj given
      rcases List.mem_cons.1 given with rfl | given
      · exact books.passed _ before
      · exact books.passed obj given
  cap := accounted.cap
  objects := fun other member => accounted.objects other (List.mem_of_mem_erase member)

theorem Accounted.taken {pool : ObjectPool} {index obj : Nat} (accounted : Accounted cap lost clients)
    (allocated : Allocated clients.pool pool (clients.held.map (·.1) ++ lost) clients.returned index obj) :
    Accounted cap lost { clients with pool := pool, held := (index, obj) :: clients.held } where
  books := allocated.books
  cap := allocated.cap.trans accounted.cap
  objects := by
    intro item held
    rcases List.mem_cons.1 held with rfl | held
    · exact allocated.holds
    · have out := List.mem_append_left lost (List.mem_map_of_mem (f := (·.1)) held)
      exact (allocated.others item.1 out).trans (accounted.objects item held)

theorem Accounted.alloc (accounted : Accounted cap lost clients) (stepped : clients.step .alloc = some after) :
    Accounted cap lost after := by
  rcases alloc_books accounted.books with ⟨-, none_left⟩ | ⟨-, index, obj, pool, given, allocated⟩
  · simp only [PoolClients.step, none_left, Option.some.injEq] at stepped
    subst stepped
    exact accounted
  · simp only [PoolClients.step, given, Option.some.injEq] at stepped
    subst stepped
    exact accounted.taken allocated

theorem putBack_keeps (pool : ObjectPool) (index obj : Nat) :
    ((pool.forget obj).putBack index).objs = pool.objs := by
  funext node
  by_cases same : node = index <;> simp [objs, putBack, forget, same]

private theorem freeIdx_keeps (pool : ObjectPool) (index : Nat) :
    (pool.freeIdx index).cap = pool.cap ∧ (pool.freeIdx index).objs = pool.objs := by
  unfold freeIdx
  split
  · split
    · refine ⟨rfl, ?_⟩
      funext node
      by_cases same : node = index <;> simp [objs, putBack, same]
    · exact ⟨rfl, putBack_keeps ..⟩
  · exact ⟨rfl, rfl⟩

private theorem freeObj_keeps (pool : ObjectPool) (obj : Nat) :
    (pool.freeObj obj).cap = pool.cap ∧ (pool.freeObj obj).objs = pool.objs := by
  unfold freeObj
  split
  · exact ⟨rfl, rfl⟩
  · split
    · exact ⟨rfl, putBack_keeps ..⟩
    · exact ⟨rfl, rfl⟩

theorem finds {held : List (Nat × Nat)} {item : Nat × Nat} (key : Nat × Nat → Nat) (member : item ∈ held) :
    ∃ other, held.find? (fun other => key other == key item) = some other := by
  apply Option.isSome_iff_exists.1
  exact List.find?_isSome.2 ⟨item, member, beq_self_eq_true _⟩

theorem step_freeObj {obj : Nat} (stepped : clients.step (.freeObj obj) = some after) : ∃ item ∈ clients.held, item.2 = obj ∧
    after = ⟨clients.pool.freeObj item.2, clients.held.erase item, item.2 :: clients.returned⟩ := by
  simp only [PoolClients.step] at stepped
  cases found : clients.held.find? (·.2 == obj) with
  | none => simp [found] at stepped
  | some item =>
    simp only [found, Option.some.injEq] at stepped
    obtain rfl : item.2 = obj := by simpa using List.find?_some found
    exact ⟨item, List.mem_of_find?_eq_some found, rfl, stepped.symm⟩

theorem step_freeIdx {index : Nat} (stepped : clients.step (.freeIdx index) = some after) :
    ∃ item ∈ clients.held, item.1 = index ∧
      after = ⟨clients.pool.freeIdx item.1, clients.held.erase item, item.2 :: clients.returned⟩ := by
  simp only [PoolClients.step] at stepped
  cases found : clients.held.find? (·.1 == index) with
  | none => simp [found] at stepped
  | some item =>
    simp only [found, Option.some.injEq] at stepped
    obtain rfl : item.1 = index := by simpa using List.find?_some found
    exact ⟨item, List.mem_of_find?_eq_some found, rfl, stepped.symm⟩

/-- Giving back an object that a client holds by its address loses its node, unless it is the first
time. -/
theorem Accounted.freeObj {obj : Nat} (accounted : Accounted cap lost clients)
    (stepped : clients.step (.freeObj obj) = some after) :
    ∃ item ∈ clients.held, item.2 = obj ∧ Accounted cap (if obj ∈ clients.returned then item.1 :: lost else lost) after := by
  obtain ⟨item, held, rfl, rfl⟩ := step_freeObj stepped
  refine ⟨item, held, rfl, ?_⟩
  by_cases before : item.2 ∈ clients.returned
  · rw [if_pos before, freeObj_returned accounted.books before]
    exact accounted.lose held before
  · rw [if_neg before]
    obtain ⟨kept, objects⟩ := freeObj_keeps clients.pool item.2
    have out := List.mem_append_left lost (List.mem_map_of_mem (f := (·.1)) held)
    exact accounted.give held (freeObj_books accounted.books out (accounted.objects item held) before) kept objects

theorem Accounted.freeIdx {index : Nat} (accounted : Accounted cap lost clients)
    (stepped : clients.step (.freeIdx index) = some after) : Accounted cap lost after := by
  obtain ⟨item, held, rfl, rfl⟩ := step_freeIdx stepped
  obtain ⟨kept, objects⟩ := freeIdx_keeps clients.pool item.1
  have out := List.mem_append_left lost (List.mem_map_of_mem (f := (·.1)) held)
  exact accounted.give held (freeIdx_books accounted.books out (accounted.objects item held)) kept objects

theorem Accounted.step (accounted : Accounted cap [] clients) (first : FirstReturn clients call)
    (stepped : clients.step call = some after) : Accounted cap [] after := by
  cases call with
  | alloc => exact accounted.alloc stepped
  | freeObj obj =>
    obtain ⟨item, held, rfl, given⟩ := accounted.freeObj stepped
    rw [if_neg (first (List.mem_map_of_mem held))] at given
    exact given
  | freeIdx index => exact accounted.freeIdx stepped

/-- A return that the pool ignores leaves `_size` above the number of objects held. -/
theorem Accounted.needs (accounted : Accounted cap [] clients)
    (sound : ∀ after, clients.step call = some after → Sound cap after) : FirstReturn clients call := by
  cases call with
  | alloc | freeIdx => trivial
  | freeObj obj =>
    intro held before
    obtain ⟨item, member, rfl⟩ := List.mem_map.1 held
    obtain ⟨other, found⟩ := finds (fun item => item.2) member
    have given := sound ⟨clients.pool.freeObj item.2, clients.held.erase other, item.2 :: clients.returned⟩
      (by simp only [PoolClients.step, found])
    have ignored := freeObj_returned accounted.books before
    have counted : clients.pool.size = clients.held.length := by simpa using accounted.books.counted
    have after := given.size
    have there := List.mem_of_find?_eq_some found
    simp only [ignored, counted, List.length_erase_of_mem there] at after
    have := List.length_pos_of_mem there
    omega

theorem accounted_of_init {capacity : Nat} {started : ObjectPool} (inited : ({} : ObjectPool).init capacity = some started) :
    Accounted capacity [] { pool := started } := by
  obtain ⟨books, cap, -⟩ := init_books inited
  exact ⟨books, cap, fun _ held => nomatch held⟩

/-- The pool keeps its promises through a run exactly when no object that has been given back before
is given back by its address. -/
theorem sound_iff_firstReturn (capacity : Nat) (started : ObjectPool)
    (inited : ({} : ObjectPool).init capacity = some started) (calls : List PoolCall) :
    Throughout PoolClients.step (Sound capacity) { pool := started } calls ↔
      EachStep PoolClients.step FirstReturn { pool := started } calls :=
  throughout_iff_eachStep Accounted.sound Accounted.step Accounted.needs (accounted_of_init inited)

/-- The pool after `init(1)`. -/
def poolOfOne : ObjectPool :=
  { created := true, nodes := fun index => { next := if index < 1 - 1 then some (index + 1) else none }, free := some 0, cap := 1 }

theorem sound_iff_firstReturn_of_one :
    ({} : ObjectPool).init 1 = some poolOfOne ∧
      Throughout PoolClients.step (Sound 1) { pool := poolOfOne } [.alloc, .freeObj 0, .alloc, .freeIdx 0, .alloc] := by
  refine ⟨rfl, (sound_iff_firstReturn 1 poolOfOne rfl _).2 ⟨trivial, fun next stepped => ?_⟩⟩
  cases stepped
  refine ⟨fun _ => List.not_mem_nil, fun next stepped => ?_⟩
  cases stepped
  exact ⟨trivial, fun _ _ => ⟨trivial, fun _ _ => ⟨trivial, fun _ _ => trivial⟩⟩⟩

/-- The second return of the only object is ignored, and the pool is empty from then on. -/
theorem second_return_ignored :
    ∃ clients, List.foldlM PoolClients.step { pool := poolOfOne } [.alloc, .freeObj 0, .alloc, .freeObj 0] = some clients ∧
      clients.held = [] ∧ clients.pool.size = 1 ∧ (∃ pool, clients.pool.alloc = some (none, pool)) ∧
      ¬ Throughout PoolClients.step (Sound 1) { pool := poolOfOne } [.alloc, .freeObj 0, .alloc, .freeObj 0] := by
  obtain ⟨clients, computed, held, size, alloc⟩ : ∃ clients,
      List.foldlM PoolClients.step { pool := poolOfOne } [.alloc, .freeObj 0, .alloc, .freeObj 0] = some clients ∧
      clients.held = [] ∧ clients.pool.size = 1 ∧ ∃ pool, clients.pool.alloc = some (none, pool) :=
    ⟨_, rfl, rfl, rfl, _, rfl⟩
  refine ⟨clients, computed, held, size, alloc, fun every => ?_⟩
  have counted := (every.last computed).size
  rw [held, size] at counted
  cases counted

end Proofs
end Cassobee
