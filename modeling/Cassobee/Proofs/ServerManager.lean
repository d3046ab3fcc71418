import Cassobee.Proofs.ReactorSteps

/-! The client always has one thing under way: a connection, the attempt to make one, or the timer for the
next attempt. -/

namespace Cassobee
open Support
variable {ν : Type}

/-- What the client has under way: nothing yet, the timer, an attempt, or a connection. -/
inductive ClientPhase (ν : Type) where
  | idle
  | waiting
  | connecting (address : ν) (session : Nat)
  | connected (address : ν) (session : Nat)

namespace ServerManager
open ReactorEvents

theorem setOpen_reactor (server : ServerManager ν) (session : Nat) : (server.setOpen session).reactor = server.reactor := by
  unfold setOpen
  split
  · rfl
  · simp only
    split <;> rfl

variable [DecidableEq ν] {server next : ServerManager ν}

/-- No event has a session, and no session is known. -/
structure Unconnected (server : ServerManager ν) : Prop where
  ses (address : ν) : server.ses address = none
  sessions (sid : Nat) : server.manager.sessions sid = none
  localsid : server.localsid = 0

/-- The event is alive and has the only session. -/
structure Occupied (server : ServerManager ν) (address : ν) (session : Nat) (event : IoEvent) (object : ManagedSession) :
    Prop where
  alive : server.reactor.heap address = some event
  ses (other : ν) : server.ses other = if other = address then some session else none
  object : server.manager.objects session = some object

/-- The session is known once `set_open` has been called, which is in the handler of the `activeio_event` yet. -/
inductive Agrees (server : ServerManager ν) : ClientPhase ν → Prop where
  | idle (started : server.started = false) (reconnects : server.reconnects = 0) (nothing : server.Unconnected) :
    Agrees server .idle
  | waiting (started : server.started = true) (reconnects : server.reconnects = 1) (nothing : server.Unconnected) :
    Agrees server .waiting
  | connecting {address : ν} {session : Nat} {event : IoEvent} {object : ManagedSession} (started : server.started = true)
      (reconnects : server.reconnects = 0) (occupied : server.Occupied address session event object)
      (kind : event.kind = .active)
      (unopened : server.reactor.stage = .handling address → server.reactor.opening = none)
      (sessions : ∀ sid, server.manager.sessions sid = none) (localsid : server.localsid = 0) :
      Agrees server (.connecting address session)
  | connected {address : ν} {session : Nat} {event : IoEvent} {object : ManagedSession} (started : server.started = true)
      (reconnects : server.reconnects = 0) (occupied : server.Occupied address session event object)
      (kind : event.kind = .stream ∨ event.kind = .active ∧ server.reactor.stage = .handling address ∧
        server.reactor.opening.isSome)
      (sessions : ∀ sid, server.manager.sessions sid = if sid = object.sid then some session else none)
      (localsid : server.localsid = object.sid) : Agrees server (.connected address session)

/-- Whatever has happened, exactly one thing is under way. -/
def Supervised (server : ServerManager ν) : Prop := ∃ phase, server.Agrees phase

variable {phase : ClientPhase ν} {reactor : ReactorEvents ν} {action : ReactorEventAction ν} {address : ν} {session : Nat}
  {event : IoEvent} {object : ManagedSession}

namespace Occupied

theorem kept (occupied : server.Occupied address session event object) (stepped : server.reactor.step action = some reactor)
    (undeleted : ∀ other, server.reactor.deleted action = some other → server.ses other = none) :
    ∃ after, ({ server with reactor } : ServerManager ν).Occupied address session after object ∧ after.kind = event.kind := by
  have spared : server.reactor.deleted action ≠ some address := by
    intro deleted
    have none := undeleted address deleted
    rw [occupied.ses, if_pos rfl] at none
    cases none
  obtain ⟨after, alive, kind⟩ := kept_of_step stepped spared event occupied.alive
  exact ⟨after, ⟨alive, occupied.ses, occupied.object⟩, kind⟩

theorem has (occupied : server.Occupied address session event object) : server.ses address = some session :=
  (occupied.ses address).trans (if_pos rfl)

theorem here (occupied : server.Occupied address session event object) (stage : server.reactor.stage = .handling address)
    {other : ν} {here : IoEvent} (handling : server.reactor.handling = some (other, here)) : other = address ∧ here = event := by
  obtain ⟨also, alive⟩ := Placed.handling_eq_some handling
  cases also.symm.trans stage
  exact ⟨rfl, Option.some.inj (alive.symm.trans occupied.alive)⟩

/-- The handler that runs is the one of the event with the session. -/
theorem handled (occupied : server.Occupied address session event object) {other : ν} {here : IoEvent} {its : Nat}
    (handling : server.reactor.handling = some (other, here)) (ses : server.ses other = some its) :
    other = address ∧ here = event ∧ its = session ∧ server.reactor.stage = .handling address := by
  obtain ⟨stage, alive⟩ := Placed.handling_eq_some handling
  rw [occupied.ses] at ses
  split at ses
  next same =>
    subst same
    cases ses
    exact ⟨rfl, Option.some.inj (alive.symm.trans occupied.alive), rfl, stage⟩
  · cases ses

end Occupied

namespace Agrees

/-- A step of the reactor in which the manager has no part. -/
theorem react (agrees : server.Agrees phase) (inside : server.reactor.OpensInside)
    (stepped : server.reactor.step action = some reactor)
    (undeleted : ∀ other, server.reactor.deleted action = some other → server.ses other = none)
    (unhandled : ∀ new, action = .setOpen new false ∨ action = .connected new → ∀ other here,
      server.reactor.handling = some (other, here) → server.ses other = none) :
    ({ server with reactor } : ServerManager ν).Agrees phase := by
  cases agrees with
  | idle started reconnects nothing => exact .idle started reconnects ⟨nothing.ses, nothing.sessions, nothing.localsid⟩
  | waiting started reconnects nothing => exact .waiting started reconnects ⟨nothing.ses, nothing.sessions, nothing.localsid⟩
  | connecting started reconnects occupied kind unopened sessions localsid =>
    obtain ⟨after, still, same⟩ := occupied.kept stepped undeleted
    refine .connecting started reconnects still (same.trans kind) (fun here => ?_) sessions localsid
    cases course_of_step stepped with
    | stays stage opening => exact opening.trans (unopened (stage.symm.trans here))
    | elsewhere outside opening =>
      refine opening.trans (inside.opening_eq_none (Option.eq_none_iff_forall_ne_some.2 fun _ handling => ?_))
      exact outside _ (Placed.handling_eq_some handling).1
    | @opens new other _ handling _ stage =>
      obtain ⟨rfl, -⟩ := occupied.here (stage.symm.trans here) handling
      cases occupied.has.symm.trans (unhandled new (.inl rfl) other _ handling)
    | accepts _ _ stage | connects _ stage | returns _ stage => cases stage.symm.trans here
  | connected started reconnects occupied kind sessions localsid =>
    obtain ⟨after, still, same⟩ := occupied.kept stepped undeleted
    refine .connected started reconnects still ?_ sessions localsid
    rcases kind with stream | ⟨active, here, making⟩
    · exact .inl (same.trans stream)
    · right
      cases course_of_step stepped with
      | stays stage opening => exact ⟨same.trans active, stage.trans here, (congrArg Option.isSome opening).trans making⟩
      | elsewhere outside => exact (outside _ here).elim
      | opens _ closed =>
        rw [closed] at making
        cases making
      | accepts handling passive =>
        obtain ⟨-, rfl⟩ := occupied.here here handling
        cases passive.symm.trans active
      | @connects new other _ handling =>
        obtain ⟨rfl, -⟩ := occupied.here here handling
        cases occupied.has.symm.trans (unhandled new (.inr rfl) other _ handling)
      | returns opening =>
        rw [opening] at making
        cases making

/-- The handler is the one of another manager. -/
theorem foreign {other : ν} {here : IoEvent} (agrees : server.Agrees phase) (inside : server.reactor.OpensInside)
    (stepped : server.reactor.step action = some reactor) (undeleted : server.reactor.deleted action = none)
    (handling : server.reactor.handling = some (other, here)) (ses : server.ses other = none) :
    ({ server with reactor } : ServerManager ν).Supervised := by
  refine ⟨phase, agrees.react inside stepped (fun another deleted => ?_) fun _ _ another event also => ?_⟩
  · cases undeleted.symm.trans deleted
  · cases also.symm.trans handling
    exact ses

/-! ## The manager's part -/

theorem closed (nowhere : ∀ other, server.ses other = none) (known : server.manager.objects session = some object)
    (started : server.started = true) (reconnects : server.reconnects = 0)
    (sessions : ∀ sid, sid ≠ object.sid → server.manager.sessions sid = none)
    (localsid : server.localsid = 0 ∨ server.localsid = object.sid) : (server.closeSession session).Agrees .waiting := by
  simp only [closeSession, known]
  refine .waiting started (congrArg (· + 1) reconnects) ⟨nowhere, fun sid => ?_, ?_⟩
  · by_cases same : sid = object.sid
    · subst same
      exact Function.update_self ..
    · exact (Function.update_of_ne same ..).trans (sessions sid same)
  · simp only [onDelSession]
    split
    · rcases localsid with zero | same
      · simp [zero]
      · simp [same]
    · rfl

/-- The event is deleted, and with it the session: it is time for the next attempt. -/
theorem freed (agrees : server.Agrees phase) (ses : server.ses address = some session) :
    (({ server with reactor } : ServerManager ν).freeEvent address).Agrees .waiting := by
  have nowhere {home : ν} {its : Nat} {event : IoEvent} {object : ManagedSession}
      (occupied : server.Occupied home its event object) : its = session ∧
        ∀ other, Function.update server.ses address none other = none := by
    have here := ses
    rw [occupied.ses] at here
    split at here
    next same =>
      refine ⟨Option.some.inj here, fun other => ?_⟩
      by_cases its : other = address
      · subst its
        exact Function.update_self ..
      · rw [Function.update_of_ne its, occupied.ses, if_neg (same ▸ its)]
    · cases here
  simp only [freeEvent, ses]
  cases agrees with
  | idle _ _ nothing => cases (nothing.ses address).symm.trans ses
  | waiting _ _ nothing => cases (nothing.ses address).symm.trans ses
  | connecting started reconnects occupied kind unopened sessions localsid =>
    obtain ⟨rfl, gone⟩ := nowhere occupied
    exact closed gone occupied.object started reconnects (fun sid _ => sessions sid) (.inl localsid)
  | connected started reconnects occupied kind sessions localsid =>
    obtain ⟨rfl, gone⟩ := nowhere occupied
    refine closed gone occupied.object started reconnects (fun sid other => ?_) (.inr localsid)
    exact (sessions sid).trans (if_neg other)

/-- A session that is opened is that of the attempt. -/
theorem opens {new other : ν} {taken : Bool} {here : IoEvent} (agrees : server.Agrees phase)
    (stepped : server.reactor.step (.setOpen new taken) = some reactor)
    (handling : server.reactor.handling = some (other, here)) (ses : server.ses other = some session) :
    server.Agrees (.connecting other session) := by
  obtain ⟨_, _, also, kinds, closed, -⟩ := setOpen_eq_some stepped
  cases also.symm.trans handling
  cases agrees with
  | idle _ _ nothing => cases (nothing.ses other).symm.trans ses
  | waiting _ _ nothing => cases (nothing.ses other).symm.trans ses
  | connecting started reconnects occupied kind unopened sessions localsid =>
    obtain ⟨rfl, rfl, rfl, -⟩ := occupied.handled handling ses
    exact .connecting started reconnects occupied kind unopened sessions localsid
  | connected started reconnects occupied kind =>
    obtain ⟨rfl, rfl, rfl, -⟩ := occupied.handled handling ses
    rcases kind with stream | ⟨-, -, making⟩
    · rw [stream] at kinds
      rcases kinds with passive | active
      · cases passive
      · cases active
    · rw [closed] at making
      cases making

/-- No other session has its id. -/
theorem free_of_tells {new other : ν} {taken : Bool} {here : IoEvent}
    (agrees : server.Agrees (.connecting other session)) (handling : server.reactor.handling = some (other, here))
    (tells : server.tells (.setOpen new taken)) : taken = false := by
  cases agrees with
  | connecting _ _ occupied _ _ sessions =>
    simpa only [ServerManager.tells, ServerManager.handled, handling, Option.bind_some, occupied.has, occupied.object,
      sessions, Option.isSome_none, beq_iff_eq] using tells

/-- The constructor of the stream opens the session of the handler's event. -/
theorem opened {new other : ν} {taken : Bool} {here : IoEvent} (agrees : server.Agrees phase)
    (stepped : server.reactor.step (.setOpen new taken) = some reactor) (tells : server.tells (.setOpen new taken))
    (handling : server.reactor.handling = some (other, here)) (ses : server.ses other = some session) :
    (({ server with reactor } : ServerManager ν).setOpen session).Supervised := by
  have attempt := agrees.opens stepped handling ses
  obtain rfl := attempt.free_of_tells handling tells
  obtain ⟨_, _, -, -, -, rfl⟩ := setOpen_eq_some stepped
  cases attempt with
  | @connecting _ _ event object started reconnects occupied kind unopened sessions localsid =>
    obtain ⟨-, rfl, -, stage⟩ := occupied.handled handling ses
    refine ⟨.connected other session, ?_⟩
    simp only [setOpen, occupied.object, sessions, onAddSession, SessionManager.addSession]
    refine @Agrees.connected _ _ _ other session here { object with phase := .opened } started reconnects
      ⟨occupied.alive, occupied.ses, Function.update_self ..⟩ (.inr ⟨kind, stage, rfl⟩) (fun sid => ?_) rfl
    exact (Function.update_apply ..).trans (if_congr Iff.rfl rfl (sessions sid))

/-- The stream takes the session over. -/
theorem handed {new other : ν} {here : IoEvent} (agrees : server.Agrees phase)
    (stepped : server.reactor.step (.connected new) = some reactor) (handling : server.reactor.handling = some (other, here))
    (ses : server.ses other = some session) : (({ server with reactor } : ServerManager ν).handOver other new).Supervised := by
  obtain ⟨_, _, stream, also, opening, -, -, made, kinds⟩ := connected_eq_some stepped
  cases also.symm.trans handling
  cases agrees with
  | idle _ _ nothing => cases (nothing.ses other).symm.trans ses
  | waiting _ _ nothing => cases (nothing.ses other).symm.trans ses
  | connecting started reconnects occupied kind unopened =>
    obtain ⟨rfl, rfl, rfl, stage⟩ := occupied.handled handling ses
    cases opening.symm.trans (unopened stage)
  | connected started reconnects occupied kind sessions localsid =>
    obtain ⟨rfl, rfl, rfl, stage⟩ := occupied.handled handling ses
    refine ⟨.connected new session, ?_⟩
    simp only [handOver, ses]
    refine .connected started reconnects ⟨made, fun another => ?_, occupied.object⟩ (.inl kinds) sessions localsid
    refine (Function.update_apply ..).trans (if_congr Iff.rfl rfl ?_)
    by_cases old : another = other
    · subst old
      exact Function.update_self ..
    · exact (Function.update_of_ne old ..).trans ((occupied.ses another).trans (if_neg old))

/-- A socket is opened for the next attempt. -/
theorem attempts {fd : Int} (nothing : server.Unconnected) (inside : server.reactor.OpensInside)
    (stepped : server.reactor.step (.create address .active fd) = some reactor) (started : server.started = true)
    (reconnects : server.reconnects = 0) : (server.openEvent address reactor).Supervised := by
  refine ⟨.connecting address server.manager.made, ?_⟩
  simp only [ReactorEvents.step, Option.ite_none_right_eq_some, Option.some.injEq] at stepped
  obtain ⟨⟨unused, -⟩, rfl⟩ := stepped
  refine .connecting started reconnects ⟨Function.update_self .., fun other => ?_, Function.update_self ..⟩ rfl (fun here => ?_)
    nothing.sessions nothing.localsid
  · exact (Function.update_apply ..).trans (if_congr Iff.rfl rfl (nothing.ses other))
  · refine inside.opening_eq_none (Option.eq_none_iff_forall_ne_some.2 fun _ handling => ?_)
    obtain ⟨stage, alive⟩ := Placed.handling_eq_some handling
    cases stage.symm.trans here
    cases unused.symm.trans alive

end Agrees

/-- The manager goes along with the reactor. -/
theorem Supervised.follow (supervised : server.Supervised) (inside : server.reactor.OpensInside)
    (stepped : server.reactor.step action = some reactor) (tells : server.tells action) : (server.follow action reactor).Supervised := by
  obtain ⟨phase, agrees⟩ := supervised
  cases action with
  | setOpen new taken =>
    obtain ⟨other, here, handling, -⟩ := setOpen_eq_some stepped
    simp only [ServerManager.follow, ServerManager.handled, handling, Option.bind_some]
    cases ses : server.ses other with
    | some session => exact agrees.opened stepped tells handling ses
    | none => exact agrees.foreign inside stepped rfl handling ses
  | connected new =>
    obtain ⟨other, here, _, handling, -⟩ := connected_eq_some stepped
    simp only [ServerManager.follow, handling]
    cases ses : server.ses other with
    | some session => exact agrees.handed stepped handling ses
    | none =>
      simp only [handOver, ses]
      exact agrees.foreign inside stepped rfl handling ses
  | loadEvent other =>
    simp only [ServerManager.follow]
    have unhandled (new : ν) : ¬ (ReactorEventAction.loadEvent other = .setOpen new false ∨
        ReactorEventAction.loadEvent other = .connected new) := by simp
    split
    next address deleted =>
      cases ses : server.ses address with
      | some session => exact ⟨.waiting, agrees.freed ses⟩
      | none =>
        simp only [freeEvent, ses]
        refine ⟨phase, agrees.react inside stepped (fun another also => ?_) fun new either => (unhandled new either).elim⟩
        cases also.symm.trans deleted
        exact ses
    next none =>
      refine ⟨phase, agrees.react inside stepped (fun another also => ?_) fun new either => (unhandled new either).elim⟩
      cases also.symm.trans none
  | _ =>
    refine ⟨phase, agrees.react inside stepped (fun another also => ?_) fun new either => ?_⟩
    · cases also
    · rcases either with same | same <;> cases same

theorem Supervised.step {action : ServerManagerAction ν} (supervised : server.Supervised)
    (inside : server.reactor.OpensInside) (stepped : server.step action = some next) : next.Supervised := by
  obtain ⟨reactor, reacted, stepped⟩ := Option.bind_eq_some_iff.1 stepped
  cases action with
  | connect address fd =>
    simp only [Option.ite_none_left_eq_some, Option.some.injEq] at stepped
    obtain ⟨fresh, rfl⟩ := stepped
    obtain ⟨phase, agrees⟩ := supervised
    cases agrees with
    | idle _ reconnects nothing =>
      exact Agrees.attempts ⟨nothing.ses, nothing.sessions, nothing.localsid⟩ inside reacted rfl reconnects
    | waiting started | connecting started | connected started => exact (fresh started).elim
  | reconnect address fd =>
    simp only [Option.ite_none_left_eq_some, Option.some.injEq] at stepped
    obtain ⟨waits, rfl⟩ := stepped
    obtain ⟨phase, agrees⟩ := supervised
    cases agrees with
    | waiting started reconnects nothing =>
      have fewer : server.reconnects - 1 = 0 := by rw [reconnects]
      exact Agrees.attempts ⟨nothing.ses, nothing.sessions, nothing.localsid⟩ inside reacted started fewer
    | idle _ reconnects | connecting _ reconnects | connected _ reconnects => exact (waits reconnects).elim
  | react action =>
    simp only [Option.ite_none_right_eq_some, Option.some.injEq] at stepped
    obtain ⟨tells, rfl⟩ := stepped
    exact supervised.follow inside reacted tells

theorem handOver_reactor (server : ServerManager ν) (old address : ν) :
    (server.handOver old address).reactor = server.reactor := by
  unfold handOver
  split <;> rfl

theorem freeEvent_reactor (server : ServerManager ν) (address : ν) : (server.freeEvent address).reactor = server.reactor := by
  unfold freeEvent closeSession
  split
  · rfl
  · split <;> rfl

theorem follow_reactor (server : ServerManager ν) (action : ReactorEventAction ν) (reactor : ReactorEvents ν) :
    (server.follow action reactor).reactor = reactor := by
  unfold follow
  simp only
  split
  · split
    · exact setOpen_reactor _ _
    · rfl
  · split
    · exact handOver_reactor _ _ _
    · rfl
  · split
    · exact freeEvent_reactor _ _
    · rfl

theorem step_reactor {action : ServerManagerAction ν} (stepped : server.step action = some next) :
    server.reactor.step action.toReactor = some next.reactor := by
  obtain ⟨reactor, reacted, stepped⟩ := Option.bind_eq_some_iff.1 stepped
  cases action with
  | connect address fd | reconnect address fd =>
    simp only [Option.ite_none_left_eq_some, Option.some.injEq] at stepped
    obtain ⟨-, rfl⟩ := stepped
    exact reacted
  | react action =>
    simp only [Option.ite_none_right_eq_some, Option.some.injEq] at stepped
    obtain ⟨-, rfl⟩ := stepped
    rw [follow_reactor]
    exact reacted

def opensOwn (server : ServerManager ν) : ServerManagerAction ν → Bool
  | .react (.setOpen ..) => server.handled.isSome
  | _ => false

/-- What the reactor needs. That no id is taken is asked of other managers only. -/
def Undisturbed (server : ServerManager ν) (action : ServerManagerAction ν) : Prop :=
  server.opensOwn action ∨ server.reactor.Undisturbed action.toReactor

instance Undisturbed.decidable (server : ServerManager ν) (action : ServerManagerAction ν) :
    Decidable (server.Undisturbed action) :=
  inferInstanceAs (Decidable (server.opensOwn action ∨ server.reactor.Undisturbed action.toReactor))

theorem Supervised.undisturbed {action : ServerManagerAction ν} (supervised : server.Supervised)
    (undisturbed : server.Undisturbed action) (stepped : server.step action = some next) :
    server.reactor.Undisturbed action.toReactor := by
  rcases undisturbed with own | undisturbed
  · unfold opensOwn at own
    split at own
    next new taken =>
      obtain ⟨reactor, reacted, stepped⟩ := Option.bind_eq_some_iff.1 stepped
      simp only [Option.ite_none_right_eq_some, Option.some.injEq] at stepped
      obtain ⟨phase, agrees⟩ := supervised
      obtain ⟨session, handled⟩ := Option.isSome_iff_exists.1 own
      obtain ⟨⟨other, here⟩, handling, ses⟩ := Option.bind_eq_some_iff.1 handled
      exact (agrees.opens reacted handling ses).free_of_tells handling stepped.1
    · cases own
  · exact undisturbed

end ServerManager

namespace Proofs
open ServerManager

/-- The first attempt fails, and the second one succeeds. -/
def retried : List (ServerManagerAction Nat) :=
  [.connect 0 3, .react .readChanges, .react (.loadEvent 0), .react (.epollWait [3]), .react .dispatch, .react .delEvent,
    .react .handled, .react .dispatch, .react .readChanges, .react (.loadEvent 0), .reconnect 1 4, .react (.epollWait []),
    .react .dispatch, .react .readChanges, .react (.loadEvent 1), .react (.epollWait [4]), .react .dispatch,
    .react (.setOpen 2 false), .react (.connected 2)]

/-- The connection is closed, and the timer set. -/
example :
    ((retried ++ ([.react .dispatch, .react .readChanges, .react (.loadEvent 2), .react (.epollWait [4]), .react .dispatch,
      .react .delEvent, .react .handled, .react .dispatch, .react .readChanges, .react (.loadEvent 2)] :
        List (ServerManagerAction Nat))).foldlM ServerManager.step (ServerManager.new .logserver)).map
          (fun server => (server.localsid, server.reconnects)) = some (0, 1) := by decide +kernel

end Proofs
end Cassobee
