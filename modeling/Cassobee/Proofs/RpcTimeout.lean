import Cassobee.Rpc
import Cassobee.Support.Run

/-! The timer that `set_request` arms. It passes the seconds where `set_timeout_timer` takes the
trace id and the trace id where it takes the seconds, so that a timer is the call's own only where
the two numbers are the same. -/

namespace Cassobee
open Support

variable {π δ : Type}

/-- The seconds that the calls of a run are given, in order. -/
def requestedSeconds : List (TimeoutAction π δ) → List Int
  | [] => []
  | .request rpc _ :: actions => rpc.timeoutSeconds :: requestedSeconds actions
  | _ :: actions => requestedSeconds actions

/-- After `count` calls, the next one gets `count + 1` seconds, the one after that a second more, and
so on, up to the last number whose milliseconds fit into an `int`. -/
def Numbered (count : Nat) : List Int → Prop
  | [] => True
  | seconds :: later => (seconds = (count + 1 : Nat) ∧ count + 1 ≤ 2147483) ∧ Numbered (count + 1) later

/-- The trace id of a call is the number of seconds that it is given. -/
def OwnNumber : TimeoutEvent → Prop
  | .requested traceid seconds _ => seconds = traceid ∧ traceid ≤ 2147483
  | _ => True

instance : (count : Nat) → (seconds : List Int) → Decidable (Numbered count seconds)
  | _, [] => isTrue trivial
  | count, _ :: later =>
    have := instDecidableNumbered (count + 1) later
    inferInstanceAs (Decidable (_ ∧ _))

/-- Every timer has its call's delay and looks up its call; no timer ends another call; and a call
whose timer has fired is gone, answered or timed out by that timer. -/
structure TimersOwn (system : TimeoutSystem π δ) : Prop where
  right {traceid seconds timer} (logged : .requested traceid seconds timer ∈ system.log) :
    timer.delay = seconds * 1000 ∧ timer.traceid = traceid
  own {owner traceid} (logged : .timedOut owner traceid ∈ system.log) : traceid = owner
  gone {owner} (logged : .fired owner ∈ system.log) : system.table.rpcs owner = none ∧
    (.answered owner ∈ system.log ∨ .timedOut owner owner ∈ system.log)

namespace Proofs

private theorem timeoutSeconds_bounds (rpc : Rpc π δ) : 0 < rpc.timeoutSeconds ∧ rpc.timeoutSeconds < 2 ^ 31 := by
  have upper := BitVec.toInt_lt (x := rpc.getTimeout)
  unfold Rpc.timeoutSeconds
  split
  next positive => exact ⟨positive, by simpa using upper⟩
  next => decide

/-- The parameters are in the wrong order: the timer waits for as many seconds as the trace id says
and looks up the number of seconds. -/
theorem timeoutTimer_eq (rpc : Rpc π δ) :
    rpc.timeoutTimer = ⟨Int.bmod (Int.bmod rpc.traceid (2 ^ 32) * 1000) (2 ^ 32), rpc.timeoutSeconds.toNat⟩ := by
  obtain ⟨positive, small⟩ := timeoutSeconds_bounds rpc
  have same : rpc.timeoutSeconds % (wordSize : Int) = rpc.timeoutSeconds :=
    Int.emod_eq_of_lt (by omega) (by simp only [wordSize]; omega)
  rw [Rpc.timeoutTimer, setTimeoutTimer, same]

theorem timeoutTimer_right_iff (rpc : Rpc π δ) :
    rpc.timeoutTimer.delay = rpc.timeoutSeconds * 1000 ∧ rpc.timeoutTimer.traceid = rpc.traceid ↔
      rpc.timeoutSeconds = rpc.traceid ∧ rpc.traceid ≤ 2147483 := by
  obtain ⟨positive, small⟩ := timeoutSeconds_bounds rpc
  have inner (bound : rpc.traceid < 2 ^ 31) : Int.bmod rpc.traceid (2 ^ 32) = rpc.traceid :=
    Int.bmod_eq_of_le (by omega) (by omega)
  rw [timeoutTimer_eq]
  constructor
  · rintro ⟨delay, own⟩
    simp only at delay own
    have seconds : rpc.timeoutSeconds = rpc.traceid := by omega
    refine ⟨seconds, ?_⟩
    rw [inner (by omega)] at delay
    have range := Int.bmod_lt (x := (rpc.traceid : Int) * 1000) (m := 2 ^ 32) (by decide)
    rw [delay] at range
    omega
  · rintro ⟨seconds, bound⟩
    simp only [inner (show rpc.traceid < 2 ^ 31 by omega), seconds, Int.toNat_natCast, and_true]
    exact Int.bmod_eq_of_le (by omega) (by omega)

/-! ## Runs -/

abbrev timeoutStep (before : TimeoutSystem π δ) (action : TimeoutAction π δ) (after : TimeoutSystem π δ) : Prop :=
  before.step action = some after

/-- What a step can do. -/
theorem timeoutStep_cases {before after : TimeoutSystem π δ} {action : TimeoutAction π δ}
    (stepped : timeoutStep before action after) :
    (∃ rpc isProxy, after = ⟨(before.table.setRequest rpc isProxy).1,
      .requested (before.table.setRequest rpc isProxy).2.traceid (before.table.setRequest rpc isProxy).2.timeoutSeconds
        (before.table.setRequest rpc isProxy).2.timeoutTimer :: before.log⟩) ∨
    (∃ traceid call table, before.table.take traceid = some (call, table) ∧
      after = ⟨table, .answered traceid :: before.log⟩) ∨
    (∃ owner timer call table, (owner, timer) ∈ before.table.timers ∧
      before.table.take timer.traceid = some (call, table) ∧
      after = ⟨table, .timedOut owner timer.traceid :: .fired owner :: before.log⟩) ∨
    (∃ owner timer, (owner, timer) ∈ before.table.timers ∧ before.table.rpcs timer.traceid = none ∧
      after = ⟨before.table, .fired owner :: before.log⟩) ∨
    after = before := by
  cases action with
  | request rpc isProxy => exact .inl ⟨rpc, isProxy, (Option.some.inj stepped).symm⟩
  | respond traceid =>
    simp only [timeoutStep, TimeoutSystem.step] at stepped
    split at stepped
    next call table took => exact .inr (.inl ⟨traceid, call, table, took, (Option.some.inj stepped).symm⟩)
    next => exact .inr (.inr (.inr (.inr (Option.some.inj stepped).symm)))
  | fire owner timer =>
    simp only [timeoutStep, TimeoutSystem.step] at stepped
    split at stepped
    next kept =>
      split at stepped
      next call table took =>
        exact .inr (.inr (.inl ⟨owner, timer, call, table, kept, took, (Option.some.inj stepped).symm⟩))
      next missing =>
        refine .inr (.inr (.inr (.inl ⟨owner, timer, kept, ?_, (Option.some.inj stepped).symm⟩)))
        simpa [RpcTable.take] using missing
    next => cases stepped

/-- What is logged of a request is what `set_request` made of some rpc object. -/
def Genuine : TimeoutEvent → Prop
  | .requested traceid seconds timer =>
    timer.delay = seconds * 1000 ∧ timer.traceid = traceid ↔ seconds = traceid ∧ traceid ≤ 2147483
  | _ => True

private theorem log_genuine {actions : List (TimeoutAction π δ)} {system : TimeoutSystem π δ}
    (ran : Run timeoutStep .initial actions system) : ∀ event ∈ system.log, Genuine event := by
  refine Run.invariant (fun state => ∀ event ∈ state.log, Genuine event) ?_ ran (by simp [TimeoutSystem.initial])
  intro before action after genuine stepped
  obtain ⟨rpc, isProxy, rfl⟩ | ⟨traceid, call, table, took, rfl⟩ | ⟨owner, timer, call, table, kept, took, rfl⟩ |
    ⟨owner, timer, kept, missing, rfl⟩ | rfl := timeoutStep_cases stepped
  · exact List.forall_mem_cons.mpr ⟨timeoutTimer_right_iff _, genuine⟩
  · exact List.forall_mem_cons.mpr ⟨trivial, genuine⟩
  · exact List.forall_mem_cons.mpr ⟨trivial, List.forall_mem_cons.mpr ⟨trivial, genuine⟩⟩
  · exact List.forall_mem_cons.mpr ⟨trivial, genuine⟩
  · exact genuine

structure Owned (system : TimeoutSystem π δ) : Prop where
  bound : system.table.nextTraceid ≤ 2147483
  logged {traceid seconds timer} (event : .requested traceid seconds timer ∈ system.log) :
    traceid ≤ system.table.nextTraceid
  armed {owner timer} (kept : (owner, timer) ∈ system.table.timers) :
    timer.traceid = owner ∧ ∃ seconds, .requested owner seconds timer ∈ system.log
  stored {traceid call} (found : system.table.rpcs traceid = some call) : traceid ≤ system.table.nextTraceid
  ends {traceid seconds timer} (event : .requested traceid seconds timer ∈ system.log) :
    system.table.rpcs traceid ≠ none ∨ .answered traceid ∈ system.log ∨ .timedOut traceid traceid ∈ system.log
  own {owner traceid} (event : .timedOut owner traceid ∈ system.log) : traceid = owner
  gone {owner} (event : .fired owner ∈ system.log) : owner ≤ system.table.nextTraceid ∧
    system.table.rpcs owner = none ∧ (.answered owner ∈ system.log ∨ .timedOut owner owner ∈ system.log)

private theorem take_eq {table taken : RpcTable π δ} {traceid : Nat} {call : Rpc π δ}
    (took : table.take traceid = some (call, taken)) :
    taken = { table with rpcs := Function.update table.rpcs traceid none } := by
  simp only [RpcTable.take, Option.map_eq_some_iff, Prod.mk.injEq] at took
  obtain ⟨-, -, -, same⟩ := took
  exact same.symm

private theorem taken_stored {rpcs : Nat → Option (Rpc π δ)} {traceid other : Nat} {call : Rpc π δ}
    (found : Function.update rpcs traceid none other = some call) : rpcs other = some call := by
  by_cases same : other = traceid
  · simp [same] at found
  · simpa [same] using found

private theorem taken_none {rpcs : Nat → Option (Rpc π δ)} (traceid : Nat) {other : Nat} (empty : rpcs other = none) :
    Function.update rpcs traceid none other = none := by
  by_cases same : other = traceid
  · simp [same]
  · simpa [same] using empty

/-- A call that loses its place in `_rpcs` does so with an event that says why. -/
private theorem taken_ends {rpcs : Nat → Option (Rpc π δ)} {traceid other : Nat} {before after : List TimeoutEvent}
    (grows : ∀ event ∈ before, event ∈ after)
    (now : .answered traceid ∈ after ∨ .timedOut traceid traceid ∈ after)
    (ends : rpcs other ≠ none ∨ .answered other ∈ before ∨ .timedOut other other ∈ before) :
    Function.update rpcs traceid none other ≠ none ∨ .answered other ∈ after ∨ .timedOut other other ∈ after := by
  by_cases same : other = traceid
  · subst same
    exact .inr now
  · rcases ends with kept | answered | expired
    · exact .inl (by simpa [same] using kept)
    · exact .inr (.inl (grows _ answered))
    · exact .inr (.inr (grows _ expired))

theorem Owned.request {system : TimeoutSystem π δ} (owned : Owned system) (rpc : Rpc π δ) (isProxy : Bool)
    (number : OwnNumber (.requested (system.table.setRequest rpc isProxy).2.traceid
      (system.table.setRequest rpc isProxy).2.timeoutSeconds (system.table.setRequest rpc isProxy).2.timeoutTimer)) :
    Owned ⟨(system.table.setRequest rpc isProxy).1,
      .requested (system.table.setRequest rpc isProxy).2.traceid (system.table.setRequest rpc isProxy).2.timeoutSeconds
        (system.table.setRequest rpc isProxy).2.timeoutTimer :: system.log⟩ := by
  let traceid := system.table.nextTraceid + 1
  have next : (system.table.nextTraceid + 1) % wordSize = traceid := by
    apply Nat.mod_eq_of_lt
    have bound := owned.bound
    simp only [wordSize]
    omega
  let call : Rpc π δ := { rpc with
    proxyTraceid := if isProxy then rpc.traceid else rpc.proxyTraceid, traceid, isServer := false }
  have unused : system.table.rpcs traceid = none := by
    cases found : system.table.rpcs traceid with
    | none => rfl
    | some old => exact absurd (owned.stored found) (Nat.not_succ_le_self _)
  have requested : system.table.setRequest rpc isProxy = (⟨traceid, Function.update system.table.rpcs traceid (some call),
      (traceid, call.timeoutTimer) :: system.table.timers⟩, call) := by
    simp only [RpcTable.setRequest, next, unused]
    rfl
  rw [requested] at number ⊢
  dsimp only at number ⊢
  have right := (timeoutTimer_right_iff call).mpr number
  have kept {other : Nat} (older : other ≤ system.table.nextTraceid) :
      Function.update system.table.rpcs traceid (some call) other = system.table.rpcs other :=
    Function.update_of_ne (Nat.ne_of_lt (Nat.lt_succ_of_le older)) ..
  refine ⟨number.2, ?_, ?_, ?_, ?_, ?_, ?_⟩
  · intro other seconds timer event
    cases event with
    | head => exact Nat.le_refl _
    | tail _ old => exact Nat.le_succ_of_le (owned.logged old)
  · intro owner timer kept
    cases kept with
    | head => exact ⟨right.2, _, .head _⟩
    | tail _ old =>
      obtain ⟨same, seconds, event⟩ := owned.armed old
      exact ⟨same, seconds, .tail _ event⟩
  · intro other found stored
    by_cases same : other = traceid
    · exact Nat.le_of_eq same
    · exact Nat.le_succ_of_le (owned.stored (show _ = some found by simpa [same] using stored))
  · intro other seconds timer event
    cases event with
    | head => exact .inl (by simp [call])
    | tail _ old =>
      refine (owned.ends old).imp (fun there => ?_) (Or.imp (.tail _) (.tail _))
      exact fun gone => there ((kept (owned.logged old)).symm.trans gone)
  · intro owner other event
    exact owned.own (by simpa using event)
  · intro owner event
    obtain ⟨bound, empty, ended⟩ := owned.gone (by simpa using event)
    exact ⟨Nat.le_succ_of_le bound, (kept bound).trans empty, ended.imp (.tail _) (.tail _)⟩

theorem Owned.answer {system : TimeoutSystem π δ} (owned : Owned system) {traceid : Nat} {call : Rpc π δ}
    {table : RpcTable π δ} (took : system.table.take traceid = some (call, table)) :
    Owned ⟨table, .answered traceid :: system.log⟩ := by
  obtain rfl := take_eq took
  refine ⟨owned.bound, ?_, ?_, fun found => owned.stored (taken_stored found), ?_, ?_, ?_⟩
  · intro traceid' seconds timer event
    exact owned.logged (by simpa using event)
  · intro owner timer kept
    obtain ⟨same, seconds, event⟩ := owned.armed kept
    exact ⟨same, seconds, .tail _ event⟩
  · intro traceid' seconds timer event
    exact taken_ends (fun _ => .tail _) (.inl (.head _)) (owned.ends (by simpa using event))
  · intro owner traceid' event
    exact owned.own (by simpa using event)
  · intro owner event
    obtain ⟨bound, empty, ended⟩ := owned.gone (by simpa using event)
    exact ⟨bound, taken_none traceid empty, ended.imp (.tail _) (.tail _)⟩

theorem Owned.expire {system : TimeoutSystem π δ} (owned : Owned system) {owner : Nat} {timer : TimeoutTimer}
    (kept : (owner, timer) ∈ system.table.timers) {call : Rpc π δ} {table : RpcTable π δ}
    (took : system.table.take timer.traceid = some (call, table)) :
    Owned ⟨table, .timedOut owner timer.traceid :: .fired owner :: system.log⟩ := by
  obtain ⟨same, seconds, requested⟩ := owned.armed kept
  rw [same] at took ⊢
  obtain rfl := take_eq took
  refine ⟨owned.bound, ?_, ?_, fun found => owned.stored (taken_stored found), ?_, ?_, ?_⟩
  · intro traceid' seconds timer event
    exact owned.logged (by simpa using event)
  · intro owner' timer' kept'
    obtain ⟨same', seconds', event⟩ := owned.armed kept'
    exact ⟨same', seconds', .tail _ (.tail _ event)⟩
  · intro traceid' seconds' timer' event
    exact taken_ends (fun _ old => .tail _ (.tail _ old)) (.inr (.head _)) (owned.ends (by simpa using event))
  · intro owner' traceid' event
    rcases List.mem_cons.mp event with now | old
    · cases now
      rfl
    · exact owned.own (by simpa using old)
  · intro owner' event
    by_cases mine : owner' = owner
    · subst mine
      exact ⟨owned.logged requested, by simp, .inr (.head _)⟩
    · obtain ⟨bound, empty, ended⟩ := owned.gone (by simpa [mine] using event)
      exact ⟨bound, taken_none owner empty,
        ended.imp (fun old => .tail _ (.tail _ old)) (fun old => .tail _ (.tail _ old))⟩

theorem Owned.miss {system : TimeoutSystem π δ} (owned : Owned system) {owner : Nat} {timer : TimeoutTimer}
    (kept : (owner, timer) ∈ system.table.timers) (missing : system.table.rpcs timer.traceid = none) :
    Owned { system with log := .fired owner :: system.log } := by
  obtain ⟨same, seconds, requested⟩ := owned.armed kept
  rw [same] at missing
  refine ⟨owned.bound, ?_, ?_, owned.stored, ?_, ?_, ?_⟩
  · intro traceid' seconds timer event
    exact owned.logged (by simpa using event)
  · intro owner' timer' kept'
    obtain ⟨same', seconds', event⟩ := owned.armed kept'
    exact ⟨same', seconds', .tail _ event⟩
  · intro traceid' seconds' timer' event
    exact (owned.ends (by simpa using event)).imp_right (Or.imp (.tail _) (.tail _))
  · intro owner' traceid' event
    exact owned.own (by simpa using event)
  · intro owner' event
    cases event with
    | head =>
      rcases owned.ends requested with there | ended
      · exact absurd missing there
      · exact ⟨owned.logged requested, missing, ended.imp (.tail _) (.tail _)⟩
    | tail _ old =>
      obtain ⟨bound, empty, ended⟩ := owned.gone old
      exact ⟨bound, empty, ended.imp (.tail _) (.tail _)⟩

private theorem run_owned {actions : List (TimeoutAction π δ)} {system : TimeoutSystem π δ}
    (ran : Run timeoutStep .initial actions system) (numbers : ∀ event ∈ system.log, OwnNumber event) :
    Owned system := by
  -- the log only grows, so the condition on it is one on every state before
  refine Run.invariant (fun state => (∀ event ∈ state.log, OwnNumber event) → Owned state) ?_ ran ?_ numbers
  · intro before action after owned stepped
    obtain ⟨rpc, isProxy, rfl⟩ | ⟨traceid, call, table, took, rfl⟩ | ⟨owner, timer, call, table, kept, took, rfl⟩ |
      ⟨owner, timer, kept, missing, rfl⟩ | rfl := timeoutStep_cases stepped
    · intro numbers
      exact (owned fun event old => numbers event (.tail _ old)).request rpc isProxy (numbers _ (.head _))
    · intro numbers
      exact (owned fun event old => numbers event (.tail _ old)).answer took
    · intro numbers
      exact (owned fun event old => numbers event (.tail _ (.tail _ old))).expire kept took
    · intro numbers
      exact (owned fun event old => numbers event (.tail _ old)).miss kept missing
    · exact owned
  · intro _
    refine ⟨Nat.zero_le _, ?_, ?_, ?_, ?_, ?_, ?_⟩ <;> simp [TimeoutSystem.initial, RpcTable.new]

private theorem step_log {before after : TimeoutSystem π δ} {action : TimeoutAction π δ}
    (stepped : timeoutStep before action after) : ∀ event ∈ before.log, event ∈ after.log := by
  obtain ⟨rpc, isProxy, rfl⟩ | ⟨traceid, call, table, took, rfl⟩ | ⟨owner, timer, call, table, kept, took, rfl⟩ |
    ⟨owner, timer, kept, missing, rfl⟩ | rfl := timeoutStep_cases stepped
  · exact fun _ => .tail _
  · exact fun _ => .tail _
  · exact fun _ old => .tail _ (.tail _ old)
  · exact fun _ => .tail _
  · exact fun _ old => old

private theorem run_log {actions : List (TimeoutAction π δ)} {before after : TimeoutSystem π δ}
    (ran : Run timeoutStep before actions after) : ∀ event ∈ before.log, event ∈ after.log := by
  induction ran with
  | done => exact fun _ old => old
  | cons first _ ih => exact fun event old => ih event (step_log first event old)

/-- A step that is no request neither moves the counter nor logs a request. -/
private theorem step_other {before after : TimeoutSystem π δ} {action : TimeoutAction π δ}
    (other : ∀ rpc isProxy, action ≠ .request rpc isProxy) (stepped : timeoutStep before action after) :
    after.table.nextTraceid = before.table.nextTraceid ∧
      ((∀ event ∈ after.log, OwnNumber event) ↔ ∀ event ∈ before.log, OwnNumber event) := by
  cases action with
  | request rpc isProxy => exact absurd rfl (other rpc isProxy)
  | respond traceid =>
    simp only [timeoutStep, TimeoutSystem.step] at stepped
    split at stepped
    next call table took =>
      obtain rfl := take_eq took
      cases stepped
      simp [OwnNumber]
    next => cases stepped; simp
  | fire owner timer =>
    simp only [timeoutStep, TimeoutSystem.step] at stepped
    split at stepped
    next =>
      split at stepped
      next call table took =>
        obtain rfl := take_eq took
        cases stepped
        simp [OwnNumber]
      next => cases stepped; simp [OwnNumber]
    next => cases stepped

/-- As long as every call has had its own number, the counter is the number of calls. -/
private theorem ownNumber_iff_numbered {actions : List (TimeoutAction π δ)} {before after : TimeoutSystem π δ}
    (ran : Run timeoutStep before actions after) (bound : before.table.nextTraceid ≤ 2147483) :
    (∀ event ∈ after.log, OwnNumber event) ↔
      (∀ event ∈ before.log, OwnNumber event) ∧ Numbered before.table.nextTraceid (requestedSeconds actions) := by
  induction ran with
  | done => simp [requestedSeconds, Numbered]
  | @cons before middle after action actions first rest ih =>
    by_cases other : ∀ rpc isProxy, action ≠ .request rpc isProxy
    · obtain ⟨counter, same⟩ := step_other other first
      have skipped : requestedSeconds (action :: actions) = requestedSeconds actions := by
        cases action with
        | request rpc isProxy => exact absurd rfl (other rpc isProxy)
        | respond | fire => rfl
      rw [ih (counter ▸ bound), same, counter, skipped]
    · push Not at other
      obtain ⟨rpc, isProxy, rfl⟩ := other
      have next : (before.table.nextTraceid + 1) % wordSize = before.table.nextTraceid + 1 :=
        Nat.mod_eq_of_lt (by simp only [wordSize]; omega)
      obtain rfl : _ = middle := Option.some.inj first
      by_cases numbered : rpc.timeoutSeconds = (before.table.nextTraceid + 1 : Nat) ∧
          before.table.nextTraceid + 1 ≤ 2147483
      · rw [ih (by simpa [RpcTable.setRequest, next] using numbered.2)]
        simp only [List.forall_mem_cons, next, requestedSeconds, Numbered, OwnNumber]
        constructor
        · rintro ⟨⟨-, old⟩, later⟩
          exact ⟨old, numbered, later⟩
        · rintro ⟨old, -, later⟩
          exact ⟨⟨numbered, old⟩, later⟩
      · refine iff_of_false (fun own => numbered ?_) (fun both => numbered both.2.1)
        have mine := own _ (run_log rest _ (.head _))
        simp only [next, OwnNumber] at mine
        exact mine

/-- The timers of a run are the calls' own exactly when the calls are given 1, 2, 3 and so on seconds. -/
theorem timersOwn_iff_numbered {actions : List (TimeoutAction π δ)} {system : TimeoutSystem π δ}
    (ran : Run timeoutStep .initial actions system) :
    TimersOwn system ↔ Numbered 0 (requestedSeconds actions) := by
  have numbers : (∀ event ∈ system.log, OwnNumber event) ↔ Numbered 0 (requestedSeconds actions) := by
    simpa [TimeoutSystem.initial, RpcTable.new] using ownNumber_iff_numbered ran (Nat.zero_le _)
  have genuine := log_genuine ran
  rw [← numbers]
  constructor
  · intro own event logged
    cases event with
    | requested traceid seconds timer => exact (genuine _ logged).mp (own.right logged)
    | answered | fired | timedOut => trivial
  · intro numbers
    have owned := run_owned ran numbers
    exact ⟨fun logged => (genuine _ logged).mpr (numbers _ logged), owned.own, fun event => (owned.gone event).2⟩

/-- An rpc object whose class gives it this many seconds. -/
def callOf (seconds : BitVec 32) : Rpc Unit Nat := ⟨1, seconds, 0, 0, false, some 7, none, none⟩

theorem timersOwn_of_one_second :
    ∃ system, Run timeoutStep .initial [.request (callOf 1) false, .fire 1 ⟨1000, 1⟩] system ∧
      .timedOut 1 1 ∈ system.log ∧ TimersOwn system := by
  obtain ⟨system, computed, expired⟩ : ∃ system : TimeoutSystem Unit Nat,
      List.foldlM TimeoutSystem.step .initial [.request (callOf 1) false, .fire 1 ⟨1000, 1⟩] = some system ∧
      .timedOut 1 1 ∈ system.log := ⟨_, rfl, by decide⟩
  have ran := Run.of_foldlM computed
  exact ⟨system, ran, expired, (timersOwn_iff_numbered ran).mpr (by decide)⟩

/-- With the default of 30 seconds, the first call's timer fires after one second and finds nothing,
and its own entry stays. -/
theorem not_timersOwn_of_default_timeout :
    ∃ system, Run timeoutStep .initial [.request (callOf 30) false, .fire 1 ⟨1000, 30⟩] system ∧
      system.log = [.fired 1, .requested 1 30 ⟨1000, 30⟩] ∧ (system.table.rpcs 1).isSome ∧ ¬ TimersOwn system := by
  obtain ⟨system, computed, log, kept⟩ : ∃ system : TimeoutSystem Unit Nat,
      List.foldlM TimeoutSystem.step .initial [.request (callOf 30) false, .fire 1 ⟨1000, 30⟩] = some system ∧
      system.log = [.fired 1, .requested 1 30 ⟨1000, 30⟩] ∧ (system.table.rpcs 1).isSome :=
    ⟨_, rfl, by decide, by decide⟩
  refine ⟨system, Run.of_foldlM computed, log, kept, fun own => ?_⟩
  have right := own.right (show .requested 1 30 ⟨1000, 30⟩ ∈ system.log by simp [log])
  exact absurd right.1 (by decide)

end Proofs
end Cassobee
