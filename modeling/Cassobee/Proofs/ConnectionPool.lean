import Cassobee.ConnectionPool
import Cassobee.Proofs.ObjectPool

/-! How many connections a client can get. The connections `init` opens are never given back, and a
connection that comes back a second time is not taken. -/

namespace Cassobee
open Support ConnectionPool

/-- The server takes every connection. -/
def ConnectionCall.Succeeds : ConnectionCall → Prop
  | .get connected connects => connected = true ∨ connects = true
  | .release _ => True

namespace PoolClients

/-- `get_connection` returns null only when the clients hold `maxsize` connections. -/
def Available (maxsize : Nat) (clients : PoolClients) : Prop :=
  ∀ connected, ∃ given after, getConnection clients.pool connected true = some (given, after) ∧
    (given = none → clients.held.length = maxsize)

/-- No connection is released that was released before. -/
def FirstRelease (clients : PoolClients) : ConnectionCall → Prop
  | .release conn => conn ∈ clients.held.map (·.2) → conn ∉ clients.returned
  | .get .. => True

end PoolClients

namespace Proofs
open ObjectPool PoolClients
variable {cap : Nat} {lost : List Nat} {clients after : PoolClients} {call : ConnectionCall}

theorem getConnection_alloc {pool : ObjectPool} {connected connects : Bool} (up : connected = true ∨ connects = true) :
    getConnection pool connected connects = pool.alloc := by
  have taken : (connected || connects) = true := by simpa using up
  unfold getConnection
  split
  next missing => rw [missing]
  next pool' none_left => rw [none_left]
  next given pool' some_left => rw [if_pos taken, some_left]

theorem connectionStep_get {connected connects : Bool} (up : connected = true ∨ connects = true) :
    clients.connectionStep (.get connected connects) = clients.step .alloc := by
  rcases found : clients.pool.alloc with _ | ⟨_ | given, pool⟩ <;>
    simp only [connectionStep, PoolClients.step, getConnection_alloc up, found]

theorem connectionStep_release (conn : Nat) :
    clients.connectionStep (.release conn) = clients.step (.freeObj conn) := by
  unfold connectionStep PoolClients.step
  cases clients.held.find? (·.2 == conn) <;> rfl

theorem Accounted.available (accounted : Accounted cap [] clients) : Available cap clients := by
  intro connected
  obtain ⟨given, after, computed, full⟩ := accounted.sound.alloc
  exact ⟨given, after, (getConnection_alloc (.inr rfl)).trans computed, full.1⟩

/-- A node is lost by a release that is not the first, and in no other way. -/
theorem Accounted.connectionStep (accounted : Accounted cap lost clients) (succeeds : call.Succeeds)
    (stepped : clients.connectionStep call = some after) :
    ∃ lost', Accounted cap lost' after ∧ (lost' = [] ↔ lost = [] ∧ FirstRelease clients call) := by
  cases call with
  | get connected connects =>
    rw [connectionStep_get succeeds] at stepped
    exact ⟨lost, accounted.alloc stepped, by simp [FirstRelease]⟩
  | release conn =>
    rw [connectionStep_release] at stepped
    obtain ⟨item, held, rfl, given⟩ := accounted.freeObj stepped
    refine ⟨_, given, ?_⟩
    have mine : item.2 ∈ clients.held.map (·.2) := List.mem_map_of_mem held
    by_cases before : item.2 ∈ clients.returned
    · rw [if_pos before]
      simp only [reduceCtorEq, false_iff]
      exact fun both => both.2 mine before
    · rw [if_neg before]
      exact ⟨fun none_lost => ⟨none_lost, fun _ => before⟩, And.left⟩

theorem Accounted.connectionRun {calls : List ConnectionCall} (accounted : Accounted cap lost clients)
    (succeed : ∀ call ∈ calls, call.Succeeds) (ran : calls.foldlM PoolClients.connectionStep clients = some after) :
    ∃ lost', Accounted cap lost' after ∧
      (lost' = [] ↔ lost = [] ∧ EachStep PoolClients.connectionStep FirstRelease clients calls) := by
  induction calls generalizing clients lost with
  | nil =>
    obtain rfl : clients = after := by simpa using ran
    exact ⟨lost, accounted, by simp [EachStep]⟩
  | cons call calls ih =>
    rw [List.foldlM_cons, Option.bind_eq_bind, Option.bind_eq_some_iff] at ran
    obtain ⟨middle, first, rest⟩ := ran
    obtain ⟨lost', accounted', losing⟩ := accounted.connectionStep (succeed call (List.mem_cons_self ..)) first
    obtain ⟨lost'', accounted'', losing'⟩ := ih accounted' (fun later member => succeed later (List.mem_cons_of_mem _ member)) rest
    refine ⟨lost'', accounted'', ?_⟩
    rw [losing', losing, EachStep, first, and_assoc]
    simp

/-- With a node lost, enough calls of `get_connection` show it. -/
theorem Accounted.exhausts (accounted : Accounted cap lost clients) (some_lost : lost ≠ []) (connected : Bool) :
    ∃ gets, ¬ Throughout PoolClients.connectionStep (Available cap) clients (List.replicate gets (.get connected true)) := by
  obtain ⟨room, room_eq⟩ : ∃ room, cap - (clients.held.length + lost.length) = room := ⟨_, rfl⟩
  have positive : 0 < lost.length := List.length_pos_iff.2 some_lost
  induction room generalizing clients with
  | zero =>
    refine ⟨0, fun every => ?_⟩
    obtain ⟨given, pool, computed, held⟩ := every connected
    rw [getConnection_alloc (.inr rfl)] at computed
    have few := accounted.books.atMost
    simp only [List.length_append, List.length_map, accounted.cap] at few
    rcases alloc_books accounted.books with ⟨-, none_left⟩ | ⟨some_left, -⟩
    · rw [none_left] at computed
      cases computed
      have := held rfl
      omega
    · simp only [List.length_append, List.length_map, accounted.cap] at some_left
      omega
  | succ room ih =>
    rcases alloc_books accounted.books with ⟨full, -⟩ | ⟨-, index, obj, pool, given, allocated⟩
    · simp only [List.length_append, List.length_map, accounted.cap] at full
      omega
    · have stepped : clients.connectionStep (.get connected true) =
          some { clients with pool := pool, held := (index, obj) :: clients.held } := by
        rw [connectionStep_get (.inr rfl)]
        simp only [PoolClients.step, given]
      obtain ⟨gets, fails⟩ := ih (accounted.taken allocated) (by simp only [List.length_cons]; omega)
      refine ⟨gets + 1, fun every => fails ?_⟩
      rw [List.replicate_succ] at every
      exact every.2 _ stepped

theorem warmUp_books {connects : Nat → Bool} {rounds : List Nat} {pool started : ObjectPool} {out : List Nat}
    (books : Books pool out []) (positive : 0 < pool.cap) (ran : rounds.foldlM (warmUp connects) pool = some started) :
    ∃ out', Books started out' [] ∧ started.cap = pool.cap ∧ (out' = [] ↔ out = [] ∧ rounds = []) := by
  induction rounds generalizing pool out with
  | nil =>
    obtain rfl : pool = started := by simpa using ran
    exact ⟨out, books, rfl, by simp⟩
  | cons round rounds ih =>
    rw [List.foldlM_cons, Option.bind_eq_bind, Option.bind_eq_some_iff] at ran
    obtain ⟨middle, first, rest⟩ := ran
    unfold warmUp at first
    rcases alloc_books books with ⟨full, none_left⟩ | ⟨-, index, obj, after, given, allocated⟩
    · rw [none_left, Option.some.injEq] at first
      subst first
      obtain ⟨out', books', cap, empty⟩ := ih books positive rest
      refine ⟨out', books', cap, ?_⟩
      have filled : out ≠ [] := by
        rintro rfl
        rw [List.length_nil] at full
        omega
      simp [empty, filled]
    · simp only [given, Option.ite_none_right_eq_some, Option.some.injEq] at first
      obtain ⟨-, rfl⟩ := first
      obtain ⟨out', books', cap, empty⟩ := ih allocated.books (allocated.cap ▸ positive) rest
      exact ⟨out', books', cap.trans allocated.cap, by simp [empty]⟩

/-- What `init` has opened stays out of the free list. -/
theorem init_accounted {connects : Nat → Bool} {minsize maxsize : Nat} {started : ObjectPool}
    (inited : ConnectionPool.init connects minsize maxsize = some started) :
    ∃ lost, Accounted maxsize lost { pool := started } ∧ (lost = [] ↔ minsize = 0) := by
  unfold ConnectionPool.init at inited
  rw [Option.bind_eq_bind, Option.bind_eq_some_iff] at inited
  obtain ⟨pool, created, warmed⟩ := inited
  obtain ⟨books, cap, -⟩ := init_books created
  have positive : 0 < pool.cap := by
    simp only [ObjectPool.init, Bool.false_eq_true, if_false, Option.ite_none_right_eq_some] at created
    rw [cap]
    exact created.1.1
  obtain ⟨lost, books', cap', empty⟩ := warmUp_books books positive warmed
  exact ⟨lost, ⟨books', cap'.trans cap, fun _ held => absurd held List.not_mem_nil⟩, by simpa using empty⟩

/-- Through a run and any further calls of `get_connection`, null is returned only when `maxsize`
connections are held, exactly when `init` opened none and no connection was released twice. -/
theorem available_iff_firstRelease (connects : Nat → Bool) (minsize maxsize : Nat) (started : ObjectPool)
    (inited : ConnectionPool.init connects minsize maxsize = some started) (calls : List ConnectionCall) (final : PoolClients)
    (succeed : ∀ call ∈ calls, call.Succeeds)
    (ran : calls.foldlM PoolClients.connectionStep { pool := started } = some final) (connected : Bool) :
    (∀ gets, Throughout PoolClients.connectionStep (Available maxsize) { pool := started }
        (calls ++ List.replicate gets (.get connected true))) ↔
      minsize = 0 ∧ EachStep PoolClients.connectionStep FirstRelease { pool := started } calls := by
  obtain ⟨lost, accounted, opened⟩ := init_accounted inited
  obtain ⟨lost', accounted', losing⟩ := accounted.connectionRun succeed ran
  rw [← opened, ← losing]
  constructor
  · intro every
    by_contra some_lost
    obtain ⟨gets, fails⟩ := accounted'.exhausts some_lost connected
    exact fails ((every gets).after ran)
  · intro none_lost gets
    obtain ⟨rfl, first⟩ := losing.1 none_lost
    have each : EachStep PoolClients.connectionStep (fun s c => c.Succeeds ∧ FirstRelease s c) { pool := started }
        (calls ++ List.replicate gets (.get connected true)) := by
      refine EachStep.append (first.and_all succeed) fun state => ?_
      refine eachStep_of_kept (fun actions _ => ∀ call ∈ actions, call = .get connected true) ?_ ?_ ?_
      · intro call rest state all
        rw [all call (List.mem_cons_self ..)]
        exact ⟨.inr rfl, trivial⟩
      · intro call rest state next all _ _
        exact fun later member => all later (List.mem_cons_of_mem _ member)
      · exact fun call member => List.eq_of_mem_replicate member
    refine throughout_of_eachStep Accounted.available ?_ accounted each
    intro s c t held meets stepped
    obtain ⟨lost'', kept, none_lost'⟩ := held.connectionStep meets.1 stepped
    obtain rfl := none_lost'.2 ⟨rfl, meets.2⟩
    exact kept

theorem available_iff_firstRelease_of_one :
    ConnectionPool.init (fun _ => true) 0 1 = some poolOfOne ∧
      ∀ gets, Throughout PoolClients.connectionStep (Available 1) { pool := poolOfOne }
        ([.get false true, .release 0] ++ List.replicate gets (.get true true)) := by
  refine ⟨rfl, (available_iff_firstRelease (fun _ => true) 0 1 poolOfOne rfl _ _ ?_ rfl true).2 ⟨rfl, trivial, ?_⟩⟩
  · intro call member
    simp only [List.mem_cons, List.not_mem_nil, or_false] at member
    obtain rfl | rfl := member
    · exact .inr rfl
    · trivial
  · intro next stepped
    cases stepped
    exact ⟨fun _ => List.not_mem_nil, fun _ _ => trivial⟩

/-- With `minsize = maxsize = 1` the only connection is opened by `init` and no client ever gets it. -/
theorem warm_connection_unavailable :
    ∃ started, ConnectionPool.init (fun _ => true) 1 1 = some started ∧
      (∃ pool, getConnection started true true = some (none, pool)) ∧
      ¬ Throughout PoolClients.connectionStep (Available 1) { pool := started } [] := by
  obtain ⟨started, inited, pool, computed⟩ : ∃ started, ConnectionPool.init (fun _ => true) 1 1 = some started ∧
      ∃ pool, getConnection started true true = some (none, pool) := ⟨_, rfl, _, rfl⟩
  refine ⟨started, inited, ⟨pool, computed⟩, fun every => ?_⟩
  obtain ⟨given, after, again, held⟩ := every true
  rw [computed] at again
  cases again
  cases held rfl

end Proofs
end Cassobee
