import Cassobee.Proofs.LockfreePool
import Cassobee.Support.Linearizable

/-! The lock-free pool is a stack of its free nodes. An `alloc` takes the top at its successful swap, or
finds the stack empty at the load of a null head; a `free` puts its node on top at its successful swap;
and no other step has an effect. -/

namespace Cassobee
open Support

inductive PoolOp where
  | alloc
  | free (node : Nat)
  deriving DecidableEq, Repr

inductive PoolAnswer where
  | allocated (node : Option Nat)
  | freed
  deriving DecidableEq, Repr

/-- A stack of at most `capacity` nodes under one call after the other. -/
def PoolOp.apply (capacity : Nat) : PoolOp → List Nat → PoolAnswer × List Nat
  | .alloc, [] => (.allocated none, [])
  | .alloc, node :: stack => (.allocated (some node), stack)
  | .free node, stack => (.freed, if node < capacity then node :: stack else stack)

/-- The calls of `alloc` and `free` and what they return. -/
def PoolSystem.seen {ι : Type} (system : PoolSystem ι) : PoolAction ι → List (Observation ι PoolOp PoolAnswer)
  | .alloc thread => [.call thread .alloc]
  | .free thread _ node =>
    if node < system.pool.cap then [.call thread (.free node)] else [.call thread (.free node), .answer thread .freed]
  | .advance thread fails =>
    match (system.threads thread).place with
    | .allocNext ⟨none, _⟩ => [.answer thread (.allocated none)]
    | .allocSwap node oldHead newHead =>
      if (system.pool.compareExchange oldHead newHead fails).isSome then [.answer thread (.allocated (some node))] else []
    | .freeSwap _ oldHead newHead =>
      if (system.pool.compareExchange oldHead newHead fails).isSome then [.answer thread .freed] else []
    | _ => []

namespace Proofs
variable {ι : Type}

/-- How far the call of a thread has come at the stack. An `alloc` that has loaded a null head is as good
as done. -/
def PlaceTold (call : AtomicCall PoolOp PoolAnswer) : PoolPlace → Prop
  | .outside => call = .outside
  | .allocLoad | .allocSwap _ _ _ => call = .called .alloc
  | .allocNext oldHead => call = if oldHead.node = none then .done (.allocated none) else .called .alloc
  | .freeLoad node | .freeStore node _ | .freeSwap node _ _ => call = .called (.free node)

structure Stacked (capacity : Nat) (system : PoolSystem ι) (atomic : AtomicObject ι PoolOp PoolAnswer (List Nat)) : Prop where
  coherent : ∃ owner, Coherent system atomic.content owner
  cap : system.pool.cap = capacity
  told : ∀ thread, PlaceTold (atomic.calls thread) (system.threads thread).place

/-- The links tell the whole stack. -/
theorem coherent_of_chain {system : PoolSystem ι} {nodes : List Nat} (kept : ∃ stack owner, Coherent system stack owner)
    (chain : Chain system.pool.links system.pool.free.node nodes) : ∃ owner, Coherent system nodes owner := by
  obtain ⟨stack, owner, coherent⟩ := kept
  rw [chain.unique coherent.chain]
  exact ⟨owner, coherent⟩

variable [DecidableEq ι] {capacity : Nat} {system after : PoolSystem ι} {thread : ι} {next : PoolThread} {pool : LockfreePool}
  {atomic : AtomicObject ι PoolOp PoolAnswer (List Nat)} {nodes : List Nat} {call : AtomicCall PoolOp PoolAnswer}

/-- A step of one thread. -/
theorem Stacked.moved (stacked : Stacked capacity system atomic)
    (kept : ∃ stack owner, Coherent (PoolSystem.set ⟨pool, system.threads⟩ thread next) stack owner)
    (chain : Chain pool.links pool.free.node nodes) (cap : pool.cap = system.pool.cap) (told : PlaceTold call next.place) :
    Stacked capacity (PoolSystem.set ⟨pool, system.threads⟩ thread next) ({ atomic with content := nodes }.set thread call) := by
  refine ⟨coherent_of_chain kept chain, cap.trans stacked.cap, fun other => ?_⟩
  simp only [AtomicObject.set, PoolSystem.set]
  by_cases same : other = thread
  · rw [same, Function.update_self, Function.update_self]
    exact told
  · rw [Function.update_of_ne same, Function.update_of_ne same]
    exact stacked.told other

/-- A step that has no effect on the stack. -/
theorem Stacked.still (stacked : Stacked capacity system atomic)
    (kept : ∃ stack owner, Coherent (PoolSystem.set ⟨pool, system.threads⟩ thread next) stack owner)
    (chain : Chain pool.links pool.free.node atomic.content) (cap : pool.cap = system.pool.cap)
    (told : PlaceTold (atomic.calls thread) next.place) :
    Stacked capacity (PoolSystem.set ⟨pool, system.threads⟩ thread next) atomic := by
  have moved := stacked.moved kept chain cap told
  have same : AtomicObject.set { atomic with content := atomic.content } thread (atomic.calls thread) = atomic :=
    congrArg (AtomicObject.mk atomic.content) (Function.update_eq_self thread atomic.calls)
  rwa [same] at moved

/-- The load of the head by `alloc`, on its own or in a swap that fails. -/
theorem Stacked.loads (stacked : Stacked capacity system atomic)
    (kept : ∃ stack owner, Coherent (system.set thread next) stack owner) (called : atomic.calls thread = .called .alloc)
    (place : next.place = .allocNext system.pool.free) :
    ∃ atomic', AtomicObject.Goes (PoolOp.apply capacity) atomic [] atomic' ∧ Stacked capacity (system.set thread next) atomic' := by
  obtain ⟨owner, coherent⟩ := stacked.coherent
  have chain := coherent.chain
  by_cases null : system.pool.free.node = none
  · have empty : atomic.content = [] := by
      rw [null] at chain
      exact chain.ends
    refine ⟨_, AtomicObject.goes_effect called, ?_⟩
    rw [empty] at chain ⊢
    refine stacked.moved kept chain rfl ?_
    rw [place]
    exact (if_pos null).symm
  · refine ⟨atomic, .refl atomic, stacked.still kept chain rfl ?_⟩
    rw [place, called]
    exact (if_neg null).symm

private theorem Stacked.allocNext {fails : Bool} {oldHead : HeadPtr} (stacked : Stacked capacity system atomic)
    (below : system.CounterBelow (.advance thread fails)) (place : (system.threads thread).place = .allocNext oldHead)
    (advanced : system.advance thread fails = some after) :
    ∃ atomic', AtomicObject.Goes (PoolOp.apply capacity) atomic (system.seen (.advance thread fails)) atomic' ∧
      Stacked capacity after atomic' := by
  obtain ⟨owner, coherent⟩ := stacked.coherent
  have kept := coherent.advance below advanced
  have told := stacked.told thread
  have chain := coherent.chain
  rw [place] at told
  obtain ⟨first, counter⟩ := oldHead
  cases first with
  | none =>
    simp only [PoolSystem.advance, place, Option.some.injEq] at advanced
    subst advanced
    simp only [PoolSystem.seen, place]
    exact ⟨_, AtomicObject.goes_answer told, stacked.moved kept chain rfl rfl⟩
  | some node =>
    simp only [PoolSystem.advance, place, Option.some.injEq] at advanced
    subst advanced
    simp only [PoolSystem.seen, place]
    exact ⟨atomic, .refl atomic, stacked.still kept chain rfl told⟩

private theorem Stacked.allocSwap {fails : Bool} {node : Nat} {oldHead newHead : HeadPtr} (stacked : Stacked capacity system atomic)
    (below : system.CounterBelow (.advance thread fails)) (place : (system.threads thread).place = .allocSwap node oldHead newHead)
    (advanced : system.advance thread fails = some after) :
    ∃ atomic', AtomicObject.Goes (PoolOp.apply capacity) atomic (system.seen (.advance thread fails)) atomic' ∧
      Stacked capacity after atomic' := by
  obtain ⟨owner, coherent⟩ := stacked.coherent
  have kept := coherent.advance below advanced
  have told := stacked.told thread
  have chain := coherent.chain
  have recalls := coherent.recalls thread
  rw [place] at told recalls
  cases swap : system.pool.compareExchange oldHead newHead fails with
  | none =>
    simp only [PoolSystem.advance, place, swap, Option.some.injEq] at advanced
    subst advanced
    simp only [PoolSystem.seen, place, swap]
    exact stacked.loads kept told rfl
  | some swapped =>
    obtain ⟨rfl, rfl, rfl⟩ := compareExchange_some swap
    simp only [PoolSystem.advance, place, swap, Option.some.injEq] at advanced
    subst advanced
    simp only [PoolSystem.seen, place, swap]
    obtain ⟨-, start, -, read⟩ := recalls
    have through := @AtomicObject.goes_through _ _ _ _ _ (PoolOp.apply capacity) atomic thread _ told
    rw [start] at chain
    obtain ⟨rest, top, linked⟩ := chain.starts
    rw [top] at through
    refine ⟨_, through, stacked.moved kept ?_ rfl rfl⟩
    -- construction does not touch the links
    rw [← read rfl] at linked
    refine linked.frame fun one _ => ?_
    by_cases same : one = node <;> simp [LockfreePool.construct, LockfreePool.links, same]

private theorem Stacked.freeSwap {fails : Bool} {node : Nat} {oldHead newHead : HeadPtr} (stacked : Stacked capacity system atomic)
    (below : system.CounterBelow (.advance thread fails)) (place : (system.threads thread).place = .freeSwap node oldHead newHead)
    (advanced : system.advance thread fails = some after) :
    ∃ atomic', AtomicObject.Goes (PoolOp.apply capacity) atomic (system.seen (.advance thread fails)) atomic' ∧
      Stacked capacity after atomic' := by
  obtain ⟨owner, coherent⟩ := stacked.coherent
  have kept := coherent.advance below advanced
  have told := stacked.told thread
  have chain := coherent.chain
  have recalls := coherent.recalls thread
  rw [place] at told recalls
  cases swap : system.pool.compareExchange oldHead newHead fails with
  | none =>
    simp only [PoolSystem.advance, place, swap, Option.some.injEq] at advanced
    subst advanced
    simp only [PoolSystem.seen, place, swap]
    exact ⟨atomic, .refl atomic, stacked.still kept chain rfl told⟩
  | some swapped =>
    obtain ⟨rfl, rfl, rfl⟩ := compareExchange_some swap
    simp only [PoolSystem.advance, place, swap, Option.some.injEq] at advanced
    subst advanced
    simp only [PoolSystem.seen, place, swap]
    obtain ⟨-, rfl, stored⟩ := recalls
    have inside : node < capacity := by
      have giving : system.freeing thread = some node := by simp [PoolSystem.freeing, place, PoolPlace.freeing]
      exact stacked.cap ▸ ((coherent.shares.frees thread node).1 giving).1
    have through := @AtomicObject.goes_through _ _ _ _ _ (PoolOp.apply capacity) atomic thread _ told
    have pushed : (PoolOp.apply capacity (.free node) atomic.content).2 = node :: atomic.content := if_pos inside
    rw [pushed] at through
    refine ⟨_, through, stacked.moved kept ⟨rfl, ?_⟩ rfl rfl⟩
    change Chain system.pool.links (system.pool.links node) atomic.content
    rw [stored]
    exact chain

theorem Stacked.advance {fails : Bool} (stacked : Stacked capacity system atomic)
    (below : system.CounterBelow (.advance thread fails)) (advanced : system.advance thread fails = some after) :
    ∃ atomic', AtomicObject.Goes (PoolOp.apply capacity) atomic (system.seen (.advance thread fails)) atomic' ∧
      Stacked capacity after atomic' := by
  obtain ⟨owner, coherent⟩ := stacked.coherent
  have kept := coherent.advance below advanced
  have told := stacked.told thread
  have chain := coherent.chain
  cases place : (system.threads thread).place with
  | outside => simp [PoolSystem.advance, place] at advanced
  | allocLoad =>
    rw [place] at told
    simp only [PoolSystem.advance, place, Option.some.injEq] at advanced
    subst advanced
    simp only [PoolSystem.seen, place]
    exact stacked.loads kept told rfl
  | allocNext oldHead => exact stacked.allocNext below place advanced
  | allocSwap node oldHead newHead => exact stacked.allocSwap below place advanced
  | freeLoad node =>
    rw [place] at told
    simp only [PoolSystem.advance, place, Option.some.injEq] at advanced
    subst advanced
    simp only [PoolSystem.seen, place]
    exact ⟨atomic, .refl atomic, stacked.still kept chain rfl told⟩
  | freeStore node oldHead =>
    rw [place] at told
    simp only [PoolSystem.advance, place, Option.some.injEq] at advanced
    subst advanced
    simp only [PoolSystem.seen, place]
    exact ⟨atomic, .refl atomic, stacked.still kept (coherent.stored place).chain rfl told⟩
  | freeSwap node oldHead newHead => exact stacked.freeSwap below place advanced

theorem Stacked.step {action : PoolAction ι} (stacked : Stacked capacity system atomic) (frees : system.FreesHeld action)
    (below : system.CounterBelow action) (stepped : system.step action = some after) :
    ∃ atomic', AtomicObject.Goes (PoolOp.apply capacity) atomic (system.seen action) atomic' ∧ Stacked capacity after atomic' := by
  cases action with
  | advance thread fails => exact stacked.advance below stepped
  | alloc thread =>
    obtain ⟨owner, coherent⟩ := stacked.coherent
    have kept := coherent.step frees below stepped
    have told := stacked.told thread
    cases place : (system.threads thread).place with
    | outside =>
      rw [place] at told
      simp only [PoolSystem.step, place, Option.some.injEq] at stepped
      subst stepped
      exact ⟨_, AtomicObject.goes_call told, stacked.moved kept coherent.chain rfl rfl⟩
    | _ => simp [PoolSystem.step, place] at stepped
  | free thread holder node =>
    obtain ⟨owner, coherent⟩ := stacked.coherent
    have kept := coherent.step frees below stepped
    have told := stacked.told thread
    have inside : node < system.pool.cap := ((coherent.shares.holds holder node).1 frees).1
    cases place : (system.threads thread).place with
    | outside =>
      rw [place] at told
      simp only [PoolSystem.step, place, if_pos inside, Option.some.injEq] at stepped
      subst stepped
      simp only [PoolSystem.seen, if_pos inside]
      refine ⟨_, AtomicObject.goes_call told, coherent_of_chain kept coherent.chain, stacked.cap, fun other => ?_⟩
      have placed : ((system.release holder node).threads other).place = (system.threads other).place := by
        by_cases same : other = holder
        · simp [PoolSystem.release, PoolSystem.set, same]
        · simp [PoolSystem.release, PoolSystem.set, same]
      by_cases same : other = thread
      · simp [PoolSystem.set, AtomicObject.set, same, PlaceTold]
      · simp only [PoolSystem.set, AtomicObject.set, Function.update_of_ne same, placed]
        exact stacked.told other
    | _ => simp [PoolSystem.step, place] at stepped

/-- Under every interleaving of any number of threads, while only held nodes are freed and the counter
does not wrap: the calls and their answers are those of a stack that starts with all nodes, the
first on top. -/
theorem lockfree_pool_linearizable (eager : Bool) (memory : Nat → LockfreeNode) (capacity : Nat) (started : LockfreePool)
    (inited : ({} : LockfreePool).init eager memory capacity = some started) (actions : List (PoolAction ι))
    (each : EachStep PoolSystem.step (fun system action => system.FreesHeld action ∧ system.CounterBelow action)
      ⟨started, fun _ => {}⟩ actions)
    (final : PoolSystem ι) (ran : actions.foldlM PoolSystem.step ⟨started, fun _ => {}⟩ = some final) :
    AtomicObject.Admits (PoolOp.apply capacity) (List.range capacity)
      (history PoolSystem.step PoolSystem.seen ⟨started, fun _ => {}⟩ actions) := by
  have cap : started.cap = capacity := by
    simp only [LockfreePool.init, Bool.false_eq_true, if_false, Option.ite_none_right_eq_some, Option.some.injEq] at inited
    obtain ⟨-, rfl⟩ := inited
    rfl
  have start : Stacked capacity (⟨started, fun _ => {}⟩ : PoolSystem ι) (AtomicObject.fresh (List.range capacity)) :=
    ⟨⟨_, coherent_of_init inited⟩, cap, fun _ => rfl⟩
  exact AtomicObject.admits_of_simulates (Stacked capacity)
    (fun stacked meets stepped => stacked.step meets.1 meets.2 stepped) start each ran

/-- The first thread takes the only node; the second one finds nothing; and the node comes back. -/
def oneNodeTwoThreads : List (PoolAction Nat) :=
  [.alloc 0, .advance 0 false, .alloc 1, .advance 0 false, .advance 0 false, .advance 1 false, .advance 1 false, .free 0 0 0,
    .advance 0 false, .advance 0 false, .advance 0 false]

theorem oneNodeTwoThreads_admitted :
    AtomicObject.Admits (PoolOp.apply 1) [0]
      [.call 0 .alloc, .call 1 .alloc, .answer (0 : Nat) (.allocated (some 0)), .answer 1 (.allocated none), .call 0 (.free 0),
        .answer 0 .freed] := by
  have counted {oldHead head : HeadPtr} {fails : Bool} (small : head.counter.succ.ble 2 = true) :
      some oldHead = some head → fails = false → head.counter + 1 < 2 ^ 64 := by
    intro _ _
    have few := Nat.le_of_ble_eq_true small
    omega
  have elsewhere {head : HeadPtr} {fails : Bool} : none = some head → fails = false → head.counter + 1 < 2 ^ 64 := by
    intro impossible
    cases impossible
  have each : EachStep PoolSystem.step (fun system action => system.FreesHeld action ∧ system.CounterBelow action)
      (⟨lockfreePoolOfOne, fun _ => {}⟩ : PoolSystem Nat) oneNodeTwoThreads := by
    refine .cons ⟨trivial, trivial⟩ rfl (.cons ⟨trivial, elsewhere⟩ rfl (.cons ⟨trivial, trivial⟩ rfl ?_))
    refine .cons ⟨trivial, elsewhere⟩ rfl (.cons ⟨trivial, counted rfl⟩ rfl ?_)
    refine .cons ⟨trivial, elsewhere⟩ rfl (.cons ⟨trivial, elsewhere⟩ rfl ?_)
    refine .cons ⟨List.mem_singleton_self 0, trivial⟩ rfl (.cons ⟨trivial, elsewhere⟩ rfl ?_)
    refine .cons ⟨trivial, elsewhere⟩ rfl (.cons ⟨trivial, counted rfl⟩ rfl trivial)
  obtain ⟨final, ran⟩ : ∃ final, oneNodeTwoThreads.foldlM PoolSystem.step (⟨lockfreePoolOfOne, fun _ => {}⟩ : PoolSystem Nat) =
      some final := ⟨_, rfl⟩
  exact lockfree_pool_linearizable false (fun _ => {}) 1 lockfreePoolOfOne rfl oneNodeTwoThreads each final ran

end Proofs
end Cassobee
