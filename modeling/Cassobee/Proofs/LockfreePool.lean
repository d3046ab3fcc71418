import Cassobee.LockfreePool
import Cassobee.Support.Chain
import Cassobee.Support.Run
import Mathlib.Data.List.Nodup

/-! The free list of the lock-free pool under every interleaving. A stale snapshot of the head is
told by its counter: while the counter is the same, nobody has written the head, and the link that
was read from it has not changed either. -/

namespace Cassobee
open Support

variable {ι : Type}

/-- The node that a thread is giving back. -/
def PoolPlace.freeing : PoolPlace → Option Nat
  | .freeLoad node | .freeStore node _ | .freeSwap node _ _ => some node
  | _ => none

/-- The head that the next `compare_exchange_weak` expects. -/
def PoolPlace.expected : PoolPlace → Option HeadPtr
  | .allocSwap _ oldHead _ | .freeSwap _ oldHead _ => some oldHead
  | _ => none

def LockfreePool.links (pool : LockfreePool) (node : Nat) : Option Nat := (pool.nodes node).next

namespace PoolSystem

def held (system : PoolSystem ι) (thread : ι) : List Nat := (system.threads thread).held

def freeing (system : PoolSystem ι) (thread : ι) : Option Nat := (system.threads thread).place.freeing

def FreesHeld (system : PoolSystem ι) : PoolAction ι → Prop
  | .free _ holder node => node ∈ system.held holder
  | _ => True

/-- A swap that succeeds does not bring the counter to `2 ^ 64`. -/
def CounterBelow (system : PoolSystem ι) : PoolAction ι → Prop
  | .advance thread fails =>
    (system.threads thread).place.expected = some system.pool.free → fails = false →
      system.pool.free.counter + 1 < 2 ^ 64
  | _ => True

structure Sound (system : PoolSystem ι) : Prop where
  apart : ∀ {one other node}, node ∈ system.held one → node ∈ system.held other → one = other
  once : ∀ thread, (system.held thread).Nodup
  reachable : ∃ nodes, Chain system.pool.links system.pool.free.node nodes ∧
    (∀ thread, ∀ node ∈ system.held thread, node ∉ nodes) ∧
    ∀ node < system.pool.cap, (∀ thread, node ∉ system.held thread ∧ system.freeing thread ≠ some node) →
      nodes.count node = 1
  null : ∀ thread, (system.threads thread).returned = some none →
    ∃ head ∈ (system.threads thread).loads, head.node = none

end PoolSystem

namespace Proofs

/-- Where a node is. -/
inductive Owner (ι : Type) where
  | pool
  | holder (thread : ι)
  | returner (thread : ι)

structure Shares (cap : Nat) (stack : List Nat) (held : ι → List Nat) (freeing : ι → Option Nat)
    (owner : Nat → Owner ι) : Prop where
  stacked : ∀ node, node ∈ stack ↔ node < cap ∧ owner node = .pool
  stackOnce : stack.Nodup
  holds : ∀ thread node, node ∈ held thread ↔ node < cap ∧ owner node = .holder thread
  holdsOnce : ∀ thread, (held thread).Nodup
  frees : ∀ thread node, freeing thread = some node ↔ node < cap ∧ owner node = .returner thread

namespace Shares
variable {cap node : Nat} {stack : List Nat} {held : ι → List Nat} {freeing : ι → Option Nat}
  {owner : Nat → Owner ι} {thread holder : ι}

theorem apart (shares : Shares cap stack held freeing owner) {one other : ι} (mine : node ∈ held one)
    (also : node ∈ held other) : one = other := by
  have same := ((shares.holds one node).1 mine).2
  rw [((shares.holds other node).1 also).2] at same
  cases same
  rfl

theorem not_stacked (shares : Shares cap stack held freeing owner) (mine : node ∈ held thread) : node ∉ stack := by
  intro member
  have free := ((shares.stacked node).1 member).2
  rw [((shares.holds thread node).1 mine).2] at free
  cases free

theorem not_stacked_of_freeing (shares : Shares cap stack held freeing owner) (giving : freeing thread = some node) :
    node ∉ stack := by
  intro member
  have free := ((shares.stacked node).1 member).2
  rw [((shares.frees thread node).1 giving).2] at free
  cases free

theorem freeing_apart (shares : Shares cap stack held freeing owner) {other : ι} (giving : freeing thread = some node)
    (also : freeing other = some node) : thread = other := by
  have same := ((shares.frees thread node).1 giving).2
  rw [((shares.frees other node).1 also).2] at same
  cases same
  rfl

theorem stacked_of_nowhere (shares : Shares cap stack held freeing owner) (inside : node < cap)
    (nowhere : ∀ thread, node ∉ held thread ∧ freeing thread ≠ some node) : node ∈ stack := by
  cases whose : owner node with
  | pool => exact (shares.stacked node).2 ⟨inside, whose⟩
  | holder thread => exact absurd ((shares.holds thread node).2 ⟨inside, whose⟩) (nowhere thread).1
  | returner thread => exact absurd ((shares.frees thread node).2 ⟨inside, whose⟩) (nowhere thread).2

variable [DecidableEq ι]

theorem take (shares : Shares cap (node :: stack) held freeing owner) (thread : ι) :
    Shares cap stack (Function.update held thread (node :: held thread)) freeing
      (Function.update owner node (.holder thread)) := by
  obtain ⟨inside, free⟩ := (shares.stacked node).1 (List.mem_cons_self ..)
  obtain ⟨fresh, once⟩ := List.nodup_cons.1 shares.stackOnce
  refine ⟨fun other => ?_, once, fun user other => ?_, fun user => ?_, fun user other => ?_⟩
  · have known := shares.stacked other
    by_cases same : other = node
    · cases same
      simp [fresh]
    · simpa [same] using known
  · have known := shares.holds user other
    by_cases same : other = node
    · cases same
      by_cases own : user = thread
      · cases own
        simp [inside]
      · simp [own, Ne.symm own, known, free]
    · by_cases own : user = thread
      · cases own
        simpa [same] using known
      · simpa [own, same] using known
  · by_cases own : user = thread
    · cases own
      have absent : node ∉ held thread := fun member => by simp [((shares.holds thread node).1 member).2] at free
      simpa [absent] using shares.holdsOnce thread
    · simpa [own] using shares.holdsOnce user
  · have known := shares.frees user other
    by_cases same : other = node
    · cases same
      simp [known, free]
    · simpa [same] using known

theorem giveBack (shares : Shares cap stack held freeing owner) (member : node ∈ held holder)
    (idle : freeing thread = none) :
    Shares cap stack (Function.update held holder ((held holder).erase node)) (Function.update freeing thread (some node))
      (Function.update owner node (.returner thread)) := by
  obtain ⟨inside, mine⟩ := (shares.holds holder node).1 member
  refine ⟨fun other => ?_, shares.stackOnce, fun user other => ?_, fun user => ?_, fun user other => ?_⟩
  · have known := shares.stacked other
    by_cases same : other = node
    · cases same
      simp [known, mine]
    · simpa [same] using known
  · have known := shares.holds user other
    by_cases own : user = holder
    · cases own
      rw [Function.update_self, (shares.holdsOnce holder).mem_erase_iff]
      by_cases same : other = node
      · cases same
        simp
      · simpa [same] using known
    · by_cases same : other = node
      · cases same
        simp [own, known, mine, Ne.symm own]
      · simpa [own, same] using known
  · by_cases own : user = holder
    · cases own
      simpa using (shares.holdsOnce holder).erase node
    · simpa [own] using shares.holdsOnce user
  · have known := shares.frees user other
    by_cases own : user = thread
    · cases own
      by_cases same : other = node
      · cases same
        simp [inside]
      · rw [idle] at known
        simpa [same, Ne.symm same] using known
    · by_cases same : other = node
      · cases same
        simp [own, known, mine, Ne.symm own]
      · simpa [own, same] using known

theorem put (shares : Shares cap stack held freeing owner) (giving : freeing thread = some node) :
    Shares cap (node :: stack) held (Function.update freeing thread none) (Function.update owner node .pool) := by
  obtain ⟨inside, mine⟩ := (shares.frees thread node).1 giving
  refine ⟨fun other => ?_, List.nodup_cons.2 ⟨fun member => ?_, shares.stackOnce⟩, fun user other => ?_, shares.holdsOnce,
    fun user other => ?_⟩
  · have known := shares.stacked other
    by_cases same : other = node
    · cases same
      simp [inside]
    · simpa [same] using known
  · have free := ((shares.stacked node).1 member).2
    rw [mine] at free
    cases free
  · have known := shares.holds user other
    by_cases same : other = node
    · cases same
      simp [known, mine]
    · simpa [same] using known
  · have known := shares.frees user other
    by_cases own : user = thread
    · cases own
      by_cases same : other = node
      · cases same
        simp
      · rw [giving] at known
        simpa [same, Ne.symm same] using known
    · by_cases same : other = node
      · cases same
        simp [own, known, mine, Ne.symm own]
      · simpa [own, same] using known

end Shares

/-- A loaded head is told from the present one by its counter. -/
def Loaded (pool : LockfreePool) (oldHead : HeadPtr) : Prop :=
  oldHead.counter ≤ pool.free.counter ∧ (oldHead.counter = pool.free.counter → oldHead = pool.free)

/-- What the local variables of a call tell about the pool. -/
def Recalls (pool : LockfreePool) : PoolPlace → Prop
  | .allocNext oldHead => Loaded pool oldHead
  | .allocSwap node oldHead newHead =>
    Loaded pool oldHead ∧ oldHead.node = some node ∧ newHead.counter = (oldHead.counter + 1) % 2 ^ 64 ∧
      (oldHead.counter = pool.free.counter → newHead.node = pool.links node)
  | .freeStore _ oldHead => Loaded pool oldHead
  | .freeSwap node oldHead newHead =>
    Loaded pool oldHead ∧ newHead = ⟨some node, (oldHead.counter + 1) % 2 ^ 64⟩ ∧ pool.links node = oldHead.node
  | _ => True

def LoadsTold (thread : PoolThread) : Prop :=
  (∀ head, thread.place = .allocNext head → head ∈ thread.loads) ∧
    (thread.returned = some none → ∃ head ∈ thread.loads, head.node = none)

theorem loaded_now (pool : LockfreePool) : Loaded pool pool.free := ⟨Nat.le_refl _, fun _ => rfl⟩

section
variable {pool after : LockfreePool} {place : PoolPlace}

theorem Loaded.swapped {oldHead : HeadPtr} (loaded : Loaded pool oldHead)
    (counted : after.free.counter = pool.free.counter + 1) : Loaded after oldHead := by
  have earlier := loaded.1
  refine ⟨by omega, fun same => ?_⟩
  omega

/-- A swap makes every other snapshot old, and an old snapshot promises nothing of the head. -/
theorem Recalls.swapped (recalls : Recalls pool place) (counted : after.free.counter = pool.free.counter + 1)
    (links : ∀ node, after.links node = pool.links node) : Recalls after place := by
  cases place with
  | outside | allocLoad | freeLoad => trivial
  | allocNext | freeStore => exact Loaded.swapped recalls counted
  | allocSwap node oldHead newHead =>
    obtain ⟨loaded, start, counter, -⟩ := recalls
    refine ⟨loaded.swapped counted, start, counter, fun same => ?_⟩
    have earlier := loaded.1
    omega
  | freeSwap node oldHead newHead =>
    obtain ⟨loaded, new, stored⟩ := recalls
    exact ⟨loaded.swapped counted, new, by rw [links, stored]⟩

/-- A link that is written belongs neither to the free list nor to another call of `free`. -/
theorem Recalls.stored {stack : List Nat} {node : Nat} {next : Option Nat} (recalls : Recalls pool place)
    (chain : Chain pool.links pool.free.node stack) (fresh : node ∉ stack) (other : place.freeing ≠ some node) :
    Recalls (pool.storeNext node next) place := by
  have links (one : Nat) (apart : one ≠ node) : (pool.storeNext node next).links one = pool.links one := by
    simp [LockfreePool.storeNext, LockfreePool.links, apart]
  cases place with
  | outside | allocLoad | freeLoad => trivial
  | allocNext | freeStore => exact recalls
  | allocSwap first oldHead newHead =>
    obtain ⟨loaded, start, counter, read⟩ := recalls
    refine ⟨loaded, start, counter, fun same => ?_⟩
    have apart : first ≠ node := by
      rintro rfl
      rw [← loaded.2 same, start] at chain
      obtain ⟨rest, rfl, -⟩ := chain.starts
      exact fresh (List.mem_cons_self ..)
    rw [links first apart]
    exact read same
  | freeSwap own oldHead newHead =>
    obtain ⟨loaded, new, stored⟩ := recalls
    refine ⟨loaded, new, ?_⟩
    rw [links own fun same => other (by rw [same]; rfl), stored]

end

variable {system after : PoolSystem ι}

structure Coherent (system : PoolSystem ι) (stack : List Nat) (owner : Nat → Owner ι) : Prop where
  chain : Chain system.pool.links system.pool.free.node stack
  shares : Shares system.pool.cap stack system.held system.freeing owner
  recalls : ∀ thread, Recalls system.pool (system.threads thread).place
  told : ∀ thread, LoadsTold (system.threads thread)

theorem Coherent.sound {stack : List Nat} {owner : Nat → Owner ι} (coherent : Coherent system stack owner) : system.Sound where
  apart := coherent.shares.apart
  once := coherent.shares.holdsOnce
  reachable := by
    refine ⟨stack, coherent.chain, fun thread node member => coherent.shares.not_stacked member,
      fun node inside nowhere => ?_⟩
    exact List.count_eq_one_of_mem coherent.shares.stackOnce (coherent.shares.stacked_of_nowhere inside nowhere)
  null := fun thread => (coherent.told thread).2

theorem coherent_of_init {eager : Bool} {memory : Nat → LockfreeNode} {capacity : Nat} {started : LockfreePool}
    (inited : ({} : LockfreePool).init eager memory capacity = some started) :
    Coherent (⟨started, fun _ => {}⟩ : PoolSystem ι) (List.range capacity) fun _ => .pool := by
  simp only [LockfreePool.init, Bool.false_eq_true, if_false, Option.ite_none_right_eq_some, Option.some.injEq] at inited
  obtain ⟨⟨positive, -⟩, rfl⟩ := inited
  refine ⟨?_, ⟨?_, List.nodup_range, ?_, ?_, ?_⟩, fun _ => trivial, fun _ => ⟨(fun _ same => nomatch same), (fun same => nomatch same)⟩⟩
  · apply Chain.range positive
    · intro index before
      simp [LockfreePool.links, Nat.ne_of_lt before]
    · simp [LockfreePool.links]
  · intro node
    simp
  · intro thread node
    simp [PoolSystem.held]
  · intro thread
    exact List.nodup_nil
  · intro thread node
    simp [PoolSystem.freeing, PoolPlace.freeing]

section
variable [DecidableEq ι] {stack : List Nat} {owner : Nat → Owner ι} {thread : ι} {next : PoolThread} {pool : LockfreePool}

theorem threads_set (holds : PoolThread → Prop) (now : holds next)
    (others : ∀ other, other ≠ thread → holds (system.threads other)) (other : ι) :
    holds ((system.set thread next).threads other) := by
  by_cases own : other = thread
  · cases own
    simpa [PoolSystem.set] using now
  · simpa [PoolSystem.set, own] using others other own

theorem held_set : (system.set thread next).held = Function.update system.held thread next.held := by
  funext other
  by_cases own : other = thread
  · cases own
    simp [PoolSystem.held, PoolSystem.set]
  · simp [PoolSystem.held, PoolSystem.set, own]

theorem freeing_set : (system.set thread next).freeing = Function.update system.freeing thread next.place.freeing := by
  funext other
  by_cases own : other = thread
  · cases own
    simp [PoolSystem.freeing, PoolSystem.set]
  · simp [PoolSystem.freeing, PoolSystem.set, own]

/-- A step writes the pool and the local variables of one thread. -/
theorem Coherent.write {stack' : List Nat} {owner' : Nat → Owner ι} (coherent : Coherent system stack owner)
    (chain : Chain pool.links pool.free.node stack')
    (shares : Shares pool.cap stack' (Function.update system.held thread next.held)
      (Function.update system.freeing thread next.place.freeing) owner')
    (recalls : Recalls pool next.place) (others : ∀ other, other ≠ thread → Recalls pool (system.threads other).place)
    (told : LoadsTold next) : Coherent (PoolSystem.set ⟨pool, system.threads⟩ thread next) stack' owner' where
  chain := chain
  shares := by
    rw [held_set, freeing_set]
    exact shares
  recalls := threads_set (fun own => Recalls pool own.place) recalls others
  told := threads_set LoadsTold told fun other _ => coherent.told other

/-- A step that changes only the local variables. -/
theorem Coherent.set (coherent : Coherent system stack owner) (held : next.held = system.held thread)
    (freeing : next.place.freeing = system.freeing thread) (recalls : Recalls system.pool next.place)
    (told : LoadsTold next) : Coherent (system.set thread next) stack owner := by
  refine coherent.write coherent.chain ?_ recalls (fun other _ => coherent.recalls other) told
  rw [held, freeing, Function.update_eq_self, Function.update_eq_self]
  exact coherent.shares

theorem compareExchange_some {oldHead newHead : HeadPtr} {fails : Bool} {swapped : LockfreePool}
    (done : pool.compareExchange oldHead newHead fails = some swapped) :
    pool.free = oldHead ∧ fails = false ∧ swapped = { pool with free := newHead } := by
  unfold LockfreePool.compareExchange at done
  split at done
  case isTrue agrees => exact ⟨agrees.1, by simpa using agrees.2, (Option.some.inj done).symm⟩
  case isFalse => cases done

/-- The node at the head goes to the thread whose swap succeeds. -/
theorem Coherent.taken (coherent : Coherent system stack owner) {node : Nat} {newHead : HeadPtr}
    (place : (system.threads thread).place = .allocSwap node system.pool.free newHead)
    (below : system.pool.free.counter + 1 < 2 ^ 64) :
    ∃ stack owner, Coherent (PoolSystem.set ⟨LockfreePool.construct { system.pool with free := newHead } node,
      system.threads⟩ thread { system.threads thread with
        place := .outside, held := node :: (system.threads thread).held, returned := some (some node) }) stack owner := by
  have recalls := coherent.recalls thread
  rw [place] at recalls
  obtain ⟨-, start, counter, read⟩ := recalls
  have links (one : Nat) : (LockfreePool.construct { system.pool with free := newHead } node).links one =
      system.pool.links one := by
    by_cases same : one = node
    · cases same
      simp [LockfreePool.construct, LockfreePool.links]
    · simp [LockfreePool.construct, LockfreePool.links, same]
  have chain := coherent.chain
  rw [start] at chain
  obtain ⟨rest, rfl, linked⟩ := chain.starts
  refine ⟨rest, Function.update owner node (.holder thread), coherent.write ?_ ?_ trivial (fun other _ => ?_) ?_⟩
  · have first : newHead.node = system.pool.links node := read rfl
    rw [← first] at linked
    exact linked.frame fun one _ => links one
  · have idle : system.freeing thread = none := by simp [PoolSystem.freeing, place, PoolPlace.freeing]
    rw [show PoolPlace.outside.freeing = system.freeing thread from idle.symm, Function.update_eq_self]
    exact coherent.shares.take thread
  · refine (coherent.recalls other).swapped ?_ links
    rw [Nat.mod_eq_of_lt below] at counter
    exact counter
  · exact ⟨(fun _ same => nomatch same), (fun same => nomatch same)⟩

/-- The thread whose swap succeeds puts its node before the others. -/
theorem Coherent.put (coherent : Coherent system stack owner) {node : Nat} {newHead : HeadPtr}
    (place : (system.threads thread).place = .freeSwap node system.pool.free newHead)
    (below : system.pool.free.counter + 1 < 2 ^ 64) :
    ∃ stack owner, Coherent (PoolSystem.set ⟨{ system.pool with free := newHead }, system.threads⟩ thread
      { system.threads thread with place := .outside }) stack owner := by
  have recalls := coherent.recalls thread
  rw [place] at recalls
  obtain ⟨-, new, stored⟩ := recalls
  rw [Nat.mod_eq_of_lt below] at new
  cases new
  have giving : system.freeing thread = some node := by simp [PoolSystem.freeing, place, PoolPlace.freeing]
  refine ⟨node :: stack, Function.update owner node .pool,
    coherent.write ⟨rfl, ?_⟩ ?_ trivial (fun other _ => ?_) ⟨(fun _ same => nomatch same), (coherent.told thread).2⟩⟩
  · change Chain system.pool.links (system.pool.links node) stack
    rw [stored]
    exact coherent.chain
  · rw [show (system.threads thread).held = system.held thread from rfl, Function.update_eq_self]
    exact coherent.shares.put giving
  · exact (coherent.recalls other).swapped rfl fun _ => rfl

/-- A thread that gives a node back writes the link of this node alone. -/
theorem Coherent.stored (coherent : Coherent system stack owner) {node : Nat} {oldHead : HeadPtr}
    (place : (system.threads thread).place = .freeStore node oldHead) :
    Coherent (PoolSystem.set ⟨system.pool.storeNext node oldHead.node, system.threads⟩ thread
      { system.threads thread with place := .freeSwap node oldHead ⟨some node, (oldHead.counter + 1) % 2 ^ 64⟩ })
      stack owner := by
  have recalls := coherent.recalls thread
  rw [place] at recalls
  have giving : system.freeing thread = some node := by simp [PoolSystem.freeing, place, PoolPlace.freeing]
  have fresh := coherent.shares.not_stacked_of_freeing giving
  refine coherent.write ?_ ?_ ⟨recalls, rfl, ?_⟩ (fun other apart => ?_)
    ⟨(fun _ same => nomatch same), (coherent.told thread).2⟩
  · refine coherent.chain.frame fun one member => ?_
    have apart : one ≠ node := fun same => fresh (same ▸ member)
    simp [LockfreePool.storeNext, LockfreePool.links, apart]
  · rw [show (system.threads thread).held = system.held thread from rfl, Function.update_eq_self,
      show PoolPlace.freeing (.freeSwap node oldHead _) = system.freeing thread from giving.symm, Function.update_eq_self]
    exact coherent.shares
  · simp [LockfreePool.storeNext, LockfreePool.links]
  · refine (coherent.recalls other).stored coherent.chain fresh fun also => apart ?_
    exact coherent.shares.freeing_apart also giving

/-- The load of `_free`, on its own or in a swap that fails. -/
theorem Coherent.loadedHead (coherent : Coherent system stack owner) (idle : system.freeing thread = none) :
    Coherent (system.set thread { system.threads thread with
      place := .allocNext system.pool.free, loads := (system.threads thread).loads ++ [system.pool.free] }) stack owner := by
  refine coherent.set rfl idle.symm (loaded_now _) ⟨fun head same => ?_, fun null => ?_⟩
  · cases same
    exact List.mem_append_right _ (List.mem_singleton_self _)
  · obtain ⟨head, member, empty⟩ := (coherent.told thread).2 null
    exact ⟨head, List.mem_append_left _ member, empty⟩

theorem Coherent.advance {fails : Bool} (coherent : Coherent system stack owner)
    (below : system.CounterBelow (.advance thread fails)) (advanced : system.advance thread fails = some after) :
    ∃ stack owner, Coherent after stack owner := by
  have recalls := coherent.recalls thread
  have told := coherent.told thread
  simp only [PoolSystem.CounterBelow] at below
  cases place : (system.threads thread).place with
  | outside => simp [PoolSystem.advance, place] at advanced
  | allocLoad =>
    simp only [PoolSystem.advance, place, Option.some.injEq] at advanced
    cases advanced
    exact ⟨stack, owner, coherent.loadedHead (by simp [PoolSystem.freeing, place, PoolPlace.freeing])⟩
  | allocNext oldHead =>
    have idle : system.freeing thread = none := by simp [PoolSystem.freeing, place, PoolPlace.freeing]
    rw [place] at recalls
    cases first : oldHead.node with
    | none =>
      simp only [PoolSystem.advance, place, first, Option.some.injEq] at advanced
      cases advanced
      refine ⟨stack, owner, coherent.set rfl idle.symm trivial ⟨(fun _ same => nomatch same), fun _ => ?_⟩⟩
      exact ⟨oldHead, told.1 oldHead place, first⟩
    | some node =>
      simp only [PoolSystem.advance, place, first, Option.some.injEq] at advanced
      cases advanced
      refine ⟨stack, owner, coherent.set rfl idle.symm ?_ ⟨(fun _ same => nomatch same), told.2⟩⟩
      exact ⟨recalls, first, rfl, fun _ => rfl⟩
  | allocSwap node oldHead newHead =>
    cases swap : system.pool.compareExchange oldHead newHead fails with
    | none =>
      simp only [PoolSystem.advance, place, swap, Option.some.injEq] at advanced
      cases advanced
      exact ⟨stack, owner, coherent.loadedHead (by simp [PoolSystem.freeing, place, PoolPlace.freeing])⟩
    | some swapped =>
      obtain ⟨rfl, rfl, rfl⟩ := compareExchange_some swap
      simp only [PoolSystem.advance, place, swap, Option.some.injEq] at advanced
      cases advanced
      exact coherent.taken place (below (by rw [place]; rfl) rfl)
  | freeLoad node =>
    simp only [PoolSystem.advance, place, Option.some.injEq] at advanced
    cases advanced
    refine ⟨stack, owner, coherent.set rfl ?_ (loaded_now _) ⟨(fun _ same => nomatch same), told.2⟩⟩
    simp [PoolSystem.freeing, place, PoolPlace.freeing]
  | freeStore node oldHead =>
    simp only [PoolSystem.advance, place, Option.some.injEq] at advanced
    cases advanced
    exact ⟨stack, owner, coherent.stored place⟩
  | freeSwap node oldHead newHead =>
    cases swap : system.pool.compareExchange oldHead newHead fails with
    | none =>
      simp only [PoolSystem.advance, place, swap, Option.some.injEq] at advanced
      cases advanced
      refine ⟨stack, owner, coherent.set rfl ?_ (loaded_now _) ⟨(fun _ same => nomatch same), told.2⟩⟩
      simp [PoolSystem.freeing, place, PoolPlace.freeing]
    | some swapped =>
      obtain ⟨rfl, rfl, rfl⟩ := compareExchange_some swap
      simp only [PoolSystem.advance, place, swap, Option.some.injEq] at advanced
      cases advanced
      exact coherent.put place (below (by rw [place]; rfl) rfl)

/-- The call of `free`: its holder gives the node to the thread that calls. -/
theorem Coherent.free {holder : ι} {node : Nat} (coherent : Coherent system stack owner)
    (place : (system.threads thread).place = .outside) (member : node ∈ system.held holder) :
    Coherent ((system.release holder node).set thread
      { (system.release holder node).threads thread with place := .freeLoad node }) stack
      (Function.update owner node (.returner thread)) := by
  have idle : system.freeing thread = none := by simp [PoolSystem.freeing, place, PoolPlace.freeing]
  have shares := coherent.shares.giveBack member idle
  have held : (system.release holder node).held = Function.update system.held holder ((system.held holder).erase node) :=
    held_set
  have freeing : (system.release holder node).freeing = system.freeing := by
    apply freeing_set.trans
    exact Function.update_eq_self holder system.freeing
  have recalls : ∀ other, Recalls system.pool ((system.release holder node).threads other).place := by
    apply threads_set (fun own => Recalls system.pool own.place)
    · exact coherent.recalls holder
    · exact fun other _ => coherent.recalls other
  have told : ∀ other, LoadsTold ((system.release holder node).threads other) := by
    apply threads_set LoadsTold
    · exact coherent.told holder
    · exact fun other _ => coherent.told other
  refine ⟨coherent.chain, ?_, ?_, ?_⟩
  · rw [held_set, freeing_set, freeing]
    refine Eq.mpr ?_ shares
    rw [← held]
    congr 1
    exact Function.update_eq_self thread _
  · exact threads_set (fun own => Recalls system.pool own.place) trivial fun other _ => recalls other
  · exact threads_set LoadsTold ⟨(fun _ same => nomatch same), (told thread).2⟩ fun other _ => told other

theorem Coherent.step {action : PoolAction ι} (coherent : Coherent system stack owner) (frees : system.FreesHeld action)
    (below : system.CounterBelow action) (stepped : system.step action = some after) :
    ∃ stack owner, Coherent after stack owner := by
  cases action with
  | alloc thread =>
    cases place : (system.threads thread).place with
    | outside =>
      simp only [PoolSystem.step, place, Option.some.injEq] at stepped
      cases stepped
      refine ⟨stack, owner, coherent.set rfl ?_ trivial ⟨(fun _ same => nomatch same), (fun same => nomatch same)⟩⟩
      simp [PoolSystem.freeing, place, PoolPlace.freeing]
    | _ => simp [PoolSystem.step, place] at stepped
  | free thread holder node =>
    cases place : (system.threads thread).place with
    | outside =>
      have inside : node < system.pool.cap := ((coherent.shares.holds holder node).1 frees).1
      simp only [PoolSystem.step, place, if_pos inside, Option.some.injEq] at stepped
      cases stepped
      exact ⟨stack, _, coherent.free place frees⟩
    | _ => simp [PoolSystem.step, place] at stepped
  | advance thread fails => exact coherent.advance below stepped

end

/-- Whatever the threads do in whatever order, the pool keeps its promises while only held nodes are
freed and the counter does not wrap. -/
theorem sound_under_every_interleaving [DecidableEq ι] (eager : Bool) (memory : Nat → LockfreeNode) (capacity : Nat)
    (started : LockfreePool) (inited : ({} : LockfreePool).init eager memory capacity = some started)
    (actions : List (PoolAction ι))
    (each : EachStep PoolSystem.step (fun system action => system.FreesHeld action ∧ system.CounterBelow action)
      ⟨started, fun _ => {}⟩ actions) :
    Throughout PoolSystem.step PoolSystem.Sound ⟨started, fun _ => {}⟩ actions := by
  have enough {system : PoolSystem ι} (kept : ∃ stack owner, Coherent system stack owner) : system.Sound := by
    obtain ⟨stack, owner, coherent⟩ := kept
    exact coherent.sound
  refine throughout_of_eachStep enough ?_ ⟨_, _, coherent_of_init inited⟩ each
  rintro system action after ⟨stack, owner, coherent⟩ ⟨frees, below⟩ stepped
  exact coherent.step frees below stepped

/-- The pool after `init(1)`. -/
def lockfreePoolOfOne : LockfreePool :=
  { created := true, nodes := fun index => { next := if index ≠ 1 - 1 then some (index + 1) else none }, free := ⟨some 0, 0⟩, cap := 1 }

/-- The second thread has read the head before the first one takes the node, fails and finds nothing;
then the first one gives the node back. -/
theorem sound_when_two_race :
    ({} : LockfreePool).init false (fun _ => {}) 1 = some lockfreePoolOfOne ∧
      Throughout PoolSystem.step PoolSystem.Sound (⟨lockfreePoolOfOne, fun _ => {}⟩ : PoolSystem Nat)
        [.alloc 0, .alloc 1, .advance 0 false, .advance 1 false, .advance 0 false, .advance 1 false, .advance 0 false,
          .advance 1 false, .advance 1 false, .free 0 0 0, .advance 0 false, .advance 0 false, .advance 0 false] := by
  refine ⟨rfl, sound_under_every_interleaving false (fun _ => {}) 1 lockfreePoolOfOne rfl _ ?_⟩
  have counted {oldHead head : HeadPtr} {fails : Bool} (small : head.counter.succ.ble 2 = true) :
      some oldHead = some head → fails = false → head.counter + 1 < 2 ^ 64 := by
    intro _ _
    have few := Nat.le_of_ble_eq_true small
    omega
  refine .cons ⟨trivial, trivial⟩ rfl (.cons ⟨trivial, trivial⟩ rfl ?_)
  refine .cons ⟨trivial, nofun⟩ rfl (.cons ⟨trivial, nofun⟩ rfl ?_)
  refine .cons ⟨trivial, nofun⟩ rfl (.cons ⟨trivial, nofun⟩ rfl ?_)
  refine .cons ⟨trivial, counted rfl⟩ rfl (.cons ⟨trivial, counted rfl⟩ rfl ?_)
  refine .cons ⟨trivial, nofun⟩ rfl (.cons ⟨List.mem_singleton_self 0, trivial⟩ rfl ?_)
  refine .cons ⟨trivial, nofun⟩ rfl (.cons ⟨trivial, nofun⟩ rfl ?_)
  exact .cons ⟨trivial, counted rfl⟩ rfl trivial

end Proofs
end Cassobee
