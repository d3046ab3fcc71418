import Cassobee.Proofs.ObjectPool

/-! What `destroy` passes. It walks along the links, which are those of the free list too, and each return writes one of
them. -/

namespace Cassobee

namespace PoolClients
open ObjectPool

/-- `destroy` passes every node once and deletes every object that was made once. -/
def DestroysAll (cap : Nat) (clients : PoolClients) : Prop :=
  ∃ passed deleted after, clients.pool.destroy = some ((passed, deleted), after) ∧ passed.Perm (List.range cap) ∧
    deleted.Perm (List.range clients.pool.made)

/-- The node of which the call writes the link, if it does. -/
def written (clients : PoolClients) : PoolCall → Option Nat
  | .alloc => none
  | .freeObj obj => if obj ∈ clients.held.map (·.2) then clients.pool.objMap obj else none
  | .freeIdx index => if index ∈ clients.held.map (·.1) then some index else none

/-- A node that is given back links to the head of the free list already. -/
def KeepsLinks (clients : PoolClients) (call : PoolCall) : Prop :=
  ∀ index, clients.written call = some index → clients.pool.nexts index = clients.pool.free

instance (clients : PoolClients) (call : PoolCall) : Decidable (KeepsLinks clients call) :=
  inferInstanceAs (Decidable (∀ index, clients.written call = some index → _))

end PoolClients

namespace Proofs
open ObjectPool PoolClients Support

/-! ## The loop -/

section
variable {nodes : Nat → ObjectNode} {start : Option Nat} {path : List Nat}

theorem destroyLoop_path (chain : Chain (fun index => (nodes index).next) start path) (distinct : path.Nodup) :
    destroyLoop path.length nodes start = some (path, path.filterMap fun index => (nodes index).obj) := by
  induction path generalizing nodes start with
  | nil => rfl
  | cons index path ih =>
    obtain ⟨rfl, linked⟩ := chain
    obtain ⟨apart, distinct⟩ := List.nodup_cons.1 distinct
    let emptied := Function.update nodes index { nodes index with obj := none }
    have other {place : Nat} (member : place ∈ path) : emptied place = nodes place := by
      apply Function.update_of_ne
      rintro rfl
      exact apart member
    have linked' : Chain (fun index => (emptied index).next) (nodes index).next path :=
      linked.frame fun place member => congrArg ObjectNode.next (other member)
    have deleted : path.filterMap (fun index => (emptied index).obj) = path.filterMap fun index => (nodes index).obj :=
      List.filterMap_congr fun place member => congrArg ObjectNode.obj (other member)
    rw [List.length_cons, destroyLoop, ih linked' distinct, deleted]
    cases here : (nodes index).obj with
    | none => simp [here]
    | some obj => simp [here]

/-- The links end before all nodes are counted. -/
theorem destroyLoop_short {count : Nat} (chain : Chain (fun index => (nodes index).next) start path)
    (early : path.length < count) : destroyLoop count nodes start = none := by
  induction path generalizing nodes start count with
  | nil =>
    obtain rfl : start = none := chain
    cases count with
    | zero => cases early
    | succ count => rfl
  | cons index path ih =>
    obtain ⟨rfl, linked⟩ := chain
    cases count with
    | zero => cases early
    | succ count =>
      have links (place : Nat) :
          (Function.update nodes index { nodes index with obj := none } place).next = (nodes place).next := by
        by_cases same : place = index
        · rw [same, Function.update_self]
        · rw [Function.update_of_ne same]
      rw [destroyLoop, ih (linked.frame fun place _ => links place) (Nat.lt_of_succ_lt_succ early)]
      rfl

end

/-! ## The calls -/

variable {cap index : Nat} {lost : List Nat} {clients after : PoolClients} {call : PoolCall}

theorem putBack_nexts (pool : ObjectPool) (index : Nat) :
    (pool.putBack index).nexts = Function.update pool.nexts index pool.free := by
  funext place
  by_cases same : place = index <;> simp [nexts, putBack, same]

/-- What a call that writes a link leaves as it is. -/
structure Relinked (clients : PoolClients) (index : Nat) (after : PoolClients) : Prop where
  nexts : after.pool.nexts = Function.update clients.pool.nexts index clients.pool.free
  objs : after.pool.objs = clients.pool.objs
  made : after.pool.made = clients.pool.made

theorem relinked_of_putBack {obj : Nat} {pool : ObjectPool} (done : pool = (clients.pool.forget obj).putBack index)
    (held : List (Nat × Nat)) (returned : List Nat) : Relinked clients index ⟨pool, held, returned⟩ := by
  subst done
  exact ⟨putBack_nexts .., putBack_keeps .., rfl⟩

theorem Accounted.written (accounted : Accounted cap lost clients) (writes : clients.written call = some index) :
    index ∈ clients.held.map (·.1) ∧ ∃ after, clients.step call = some after ∧ Relinked clients index after := by
  have books := accounted.books
  cases call with
  | alloc => cases writes
  | freeObj obj =>
    obtain ⟨holds, mapped⟩ := Option.ite_none_right_eq_some.1 writes
    obtain ⟨item, member, rfl⟩ := List.mem_map.1 holds
    obtain ⟨there, -⟩ := (books.mapped index item.2).1 mapped
    obtain rfl := books.single item.1 index item.2 (accounted.objects item member) there
    have out := List.mem_map_of_mem (f := (·.1)) member
    have inside := books.within (List.mem_append_left lost out)
    have done : clients.pool.freeObj item.2 = (clients.pool.forget item.2).putBack item.1 := by
      simp only [ObjectPool.freeObj, mapped, inside, if_true]
    obtain ⟨other, found⟩ := finds (fun item => item.2) member
    have stepped : clients.step (.freeObj item.2) =
        some ⟨clients.pool.freeObj item.2, clients.held.erase other, item.2 :: clients.returned⟩ := by
      simp only [PoolClients.step, found]
    exact ⟨out, _, stepped, relinked_of_putBack done _ _⟩
  | freeIdx place =>
    obtain ⟨out, same⟩ := Option.ite_none_right_eq_some.1 writes
    cases same
    obtain ⟨item, member, rfl⟩ := List.mem_map.1 out
    have inside := books.within (List.mem_append_left lost out)
    have filled : (clients.pool.nodes item.1).obj = some item.2 := accounted.objects item member
    have done : clients.pool.freeIdx item.1 = (clients.pool.forget item.2).putBack item.1 := by
      simp only [ObjectPool.freeIdx, inside, if_true, filled]
    obtain ⟨other, found⟩ := finds (fun item => item.1) member
    have stepped : clients.step (.freeIdx item.1) =
        some ⟨clients.pool.freeIdx item.1, clients.held.erase other, other.2 :: clients.returned⟩ := by
      simp only [PoolClients.step, found]
    exact ⟨out, _, stepped, relinked_of_putBack done _ _⟩

theorem Accounted.next (accounted : Accounted cap lost clients) (stepped : clients.step call = some after) :
    ∃ lost, Accounted cap lost after := by
  cases call with
  | alloc => exact ⟨lost, accounted.alloc stepped⟩
  | freeObj obj =>
    obtain ⟨item, -, -, later⟩ := accounted.freeObj stepped
    exact ⟨_, later⟩
  | freeIdx index => exact ⟨lost, accounted.freeIdx stepped⟩

/-- What a pool keeps where no link is written: nothing is made, or one object in the first free node. -/
structure LinksKept (pool after : ObjectPool) : Prop where
  nexts : after.nexts = pool.nexts
  objects : after.objs = pool.objs ∧ after.made = pool.made ∨
    ∃ index, pool.free = some index ∧ pool.objs index = none ∧
      after.objs = Function.update pool.objs index (some pool.made) ∧ after.made = pool.made + 1

theorem alloc_linksKept {pool after : ObjectPool} {given : Option (Nat × Nat)} (allocated : pool.alloc = some (given, after)) :
    LinksKept pool after := by
  rw [ObjectPool.alloc] at allocated
  split at allocated
  next =>
    cases allocated
    exact ⟨rfl, .inl ⟨rfl, rfl⟩⟩
  split at allocated
  next =>
    cases allocated
    exact ⟨rfl, .inl ⟨rfl, rfl⟩⟩
  split at allocated
  next => cases allocated
  next index free =>
    dsimp only at allocated
    split at allocated
    next =>
      cases allocated
      exact ⟨rfl, .inl ⟨rfl, rfl⟩⟩
    next empty =>
      cases allocated
      refine ⟨?_, .inr ⟨index, free, empty, ?_, rfl⟩⟩
      · funext place
        by_cases same : place = index <;> simp [nexts, same]
      · funext place
        by_cases same : place = index <;> simp [objs, same]

theorem unwritten (unwritten : clients.written call = none) (stepped : clients.step call = some after) :
    LinksKept clients.pool after.pool := by
  cases call with
  | alloc =>
    simp only [PoolClients.step] at stepped
    split at stepped
    next => cases stepped
    next pool allocated =>
      cases stepped
      exact alloc_linksKept allocated
    next given pool allocated =>
      cases stepped
      exact alloc_linksKept allocated
  | freeObj obj =>
    obtain ⟨item, held, rfl, rfl⟩ := step_freeObj stepped
    have unmapped : clients.pool.objMap item.2 = none := by
      rwa [PoolClients.written, if_pos (List.mem_map_of_mem held)] at unwritten
    have ignored : clients.pool.freeObj item.2 = clients.pool := by
      rw [ObjectPool.freeObj, unmapped]
    dsimp only
    rw [ignored]
    exact ⟨rfl, .inl ⟨rfl, rfl⟩⟩
  | freeIdx index =>
    obtain ⟨item, held, rfl, -⟩ := step_freeIdx stepped
    rw [PoolClients.written, if_pos (List.mem_map_of_mem held)] at unwritten
    cases unwritten

/-! ## The line of all nodes -/

/-- The links lead from the first node through all of them, and every object is in one of them. -/
structure Lined (cap : Nat) (clients : PoolClients) : Prop where
  accounted : ∃ lost, Accounted cap lost clients
  path : ∃ path, Chain clients.pool.nexts (some 0) path ∧ path.Perm (List.range cap)
  placed (obj : Nat) (made : obj < clients.pool.made) : ∃ index < cap, clients.pool.objs index = some obj

namespace Lined

theorem destroysAll (lined : Lined cap clients) : DestroysAll cap clients := by
  obtain ⟨lost, accounted⟩ := lined.accounted
  obtain ⟨path, chain, all⟩ := lined.path
  have books := accounted.books
  have distinct : path.Nodup := all.nodup_iff.2 List.nodup_range
  have count : path.length = clients.pool.cap := all.length_eq.trans (List.length_range.trans accounted.cap.symm)
  have loop : destroyLoop clients.pool.cap clients.pool.nodes (some 0) = some (path, path.filterMap clients.pool.objs) :=
    count ▸ destroyLoop_path chain distinct
  refine ⟨path, path.filterMap clients.pool.objs, { made := clients.pool.made }, ?_, all, ?_⟩
  · rw [destroy, books.created, loop]
    rfl
  · have once : (path.filterMap clients.pool.objs).Nodup := distinct.filterMap fun index index' obj here there =>
      books.single index index' obj here there
    apply (List.perm_ext_iff_of_nodup once List.nodup_range).2
    intro obj
    rw [List.mem_filterMap, List.mem_range]
    constructor
    · rintro ⟨index, -, here⟩
      exact books.known index obj here
    · intro made
      obtain ⟨index, inside, here⟩ := lined.placed obj made
      exact ⟨index, all.mem_iff.2 (List.mem_range.2 inside), here⟩

theorem step (lined : Lined cap clients) (keeps : KeepsLinks clients call) (stepped : clients.step call = some after) :
    Lined cap after := by
  obtain ⟨lost, accounted⟩ := lined.accounted
  obtain ⟨path, chain, all⟩ := lined.path
  have later := accounted.next stepped
  cases writes : clients.written call with
  | some index =>
    obtain ⟨-, next, stepped', relinked⟩ := accounted.written writes
    cases stepped.symm.trans stepped'
    have same : after.pool.nexts = clients.pool.nexts := by
      rw [relinked.nexts, ← keeps index writes, Function.update_eq_self]
    refine ⟨later, ⟨path, same ▸ chain, all⟩, ?_⟩
    rw [relinked.objs, relinked.made]
    exact lined.placed
  | none =>
    obtain ⟨same, objects⟩ := unwritten writes stepped
    refine ⟨later, ⟨path, same ▸ chain, all⟩, ?_⟩
    obtain ⟨objs, made⟩ | ⟨index, free, empty, objs, made⟩ := objects
    · rw [objs, made]
      exact lined.placed
    · intro obj known
      rw [made] at known
      rw [objs]
      by_cases new : obj = clients.pool.made
      · refine ⟨index, ?_, by rw [Function.update_self, new]⟩
        obtain ⟨chain', linked, all'⟩ := accounted.books.chained
        rw [free] at linked
        obtain ⟨rest, rfl, -⟩ := linked.starts
        rw [← accounted.cap, ← List.mem_range]
        exact all'.subset (List.mem_append_left _ (List.mem_cons_self ..))
      · obtain ⟨place, inside, here⟩ := lined.placed obj (by omega)
        refine ⟨place, inside, ?_⟩
        rw [Function.update_of_ne, here]
        rintro rfl
        rw [empty] at here
        cases here

/-- Any other return leaves out what was between the node and the free list, and the links end too early. -/
theorem needs (lined : Lined cap clients) (every : ∀ after, clients.step call = some after → DestroysAll cap after) :
    KeepsLinks clients call := by
  intro index writes
  by_contra differs
  obtain ⟨lost, accounted⟩ := lined.accounted
  obtain ⟨path, chain, all⟩ := lined.path
  obtain ⟨given, after, stepped, relinked⟩ := accounted.written writes
  obtain ⟨free, linked, parts⟩ := accounted.books.chained
  rw [accounted.cap] at parts
  have out : index ∈ clients.held.map (·.1) ++ lost := List.mem_append_left lost given
  have apart : index ∉ free := fun member =>
    (List.nodup_append.1 (parts.nodup_iff.2 List.nodup_range)).2.2 index member index out rfl
  obtain ⟨front, back, rfl⟩ := List.append_of_mem (all.mem_iff.2 (parts.subset (List.mem_append_right free out)))
  have distinct := List.nodup_append.1 (all.nodup_iff.2 List.nodup_range)
  have within : free ⊆ front ++ index :: back := fun place member =>
    all.mem_iff.2 (parts.subset (List.mem_append_left _ member))
  have fewer := chain.shorter linked within apart differs
  have total := all.length_eq
  rw [List.length_append, List.length_cons, List.length_range] at total
  have shortened : Chain after.pool.nexts (some 0) (front ++ index :: free) := by
    rw [relinked.nexts]
    apply chain.relink
    · intro place member
      apply Function.update_of_ne
      rintro rfl
      obtain before | member := List.mem_append.1 member
      · exact distinct.2.2 place before place (List.mem_cons_self ..) rfl
      · exact apart member
    · rwa [Function.update_self]
  obtain ⟨lost', later⟩ := accounted.next stepped
  have early : destroyLoop after.pool.cap after.pool.nodes (some 0) = none := by
    apply destroyLoop_short shortened
    rw [List.length_append, List.length_cons, later.cap]
    omega
  obtain ⟨passed, deleted, pool, destroyed, -⟩ := every after stepped
  rw [destroy, later.books.created, early] at destroyed
  cases destroyed

end Lined

theorem lined_of_init {capacity : Nat} {started : ObjectPool} (inited : ({} : ObjectPool).init capacity = some started) :
    Lined capacity { pool := started } := by
  have accounted := accounted_of_init inited
  obtain ⟨books, cap, made⟩ := init_books inited
  obtain ⟨chain, linked, all⟩ := books.chained
  rw [List.append_nil, cap] at all
  simp only [ObjectPool.init, Bool.false_eq_true, if_false, Option.ite_none_right_eq_some, Option.some.injEq] at inited
  obtain ⟨-, rfl⟩ := inited
  exact ⟨⟨[], accounted⟩, ⟨chain, linked, all⟩, fun obj known => absurd known (Nat.not_lt_zero obj)⟩

/-- `destroy` is right in all of a run exactly when every node that is given back links to the head of the free list already,
which is so where the last node that is out comes back first. -/
theorem destroysAll_iff_keepsLinks (capacity : Nat) (started : ObjectPool)
    (inited : ({} : ObjectPool).init capacity = some started) (calls : List PoolCall) :
    Throughout PoolClients.step (DestroysAll capacity) { pool := started } calls ↔
      EachStep PoolClients.step KeepsLinks { pool := started } calls :=
  throughout_iff_eachStep Lined.destroysAll Lined.step Lined.needs (lined_of_init inited)

/-- The pool after `init(2)`. -/
def poolOfTwo : ObjectPool :=
  { created := true, nodes := fun index => { next := if index < 2 - 1 then some (index + 1) else none }, free := some 0, cap := 2 }

theorem destroysAll_iff_keepsLinks_of_two :
    ({} : ObjectPool).init 2 = some poolOfTwo ∧
      Throughout PoolClients.step (DestroysAll 2) { pool := poolOfTwo } [.alloc, .alloc, .freeIdx 1, .freeObj 0, .alloc] := by
  refine ⟨rfl, (destroysAll_iff_keepsLinks 2 poolOfTwo rfl _).2 ?_⟩
  decide

/-- The first node comes back before the second one. -/
theorem second_node_passed_by :
    ∃ clients, List.foldlM PoolClients.step { pool := poolOfTwo } [.alloc, .alloc, .freeIdx 0] = some clients ∧
      clients.pool.destroy = none ∧
      ¬ Throughout PoolClients.step (DestroysAll 2) { pool := poolOfTwo } [.alloc, .alloc, .freeIdx 0] := by
  obtain ⟨clients, computed, fails⟩ : ∃ clients,
      List.foldlM PoolClients.step { pool := poolOfTwo } [.alloc, .alloc, .freeIdx 0] = some clients ∧
      clients.pool.destroy = none := ⟨_, rfl, rfl⟩
  refine ⟨clients, computed, fails, fun every => ?_⟩
  obtain ⟨passed, deleted, after, destroyed, -⟩ := every.last computed
  cases fails.symm.trans destroyed

end Proofs
end Cassobee
