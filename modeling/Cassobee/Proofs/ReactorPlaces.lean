import Cassobee.ReactorEvents
import Cassobee.Support.Run

/-! What becomes of io events. Every descriptor that is open is in one of three places: with an event that
waits to be loaded, with one that is registered, or with one that is about to take the place of the event
it came from. A step moves one descriptor, and leaves the others where they are. -/

namespace Cassobee
open Support
variable {ν : Type}

namespace ReactorEvents

def Pending (reactor : ReactorEvents ν) (address : ν) : Prop := address ∈ reactor.changelist ∨ address ∈ reactor.loading

/-- The next passage of `load_event`, or the rest of this one, comes to the event; and the one after it does not. -/
structure Due (reactor : ReactorEvents ν) (address : ν) : Prop where
  next (outside : reactor.stage ≠ .loading) : address ∈ reactor.changelist
  now (inside : reactor.stage = .loading) : address ∈ reactor.loading ∧ address ∉ reactor.changelist

/-- No dead object has been used. Lists, `_io_events` and epoll agree with the events that are alive, as far
as nothing waits to be loaded. -/
structure Safe (reactor : ReactorEvents ν) : Prop where
  unfaulted : reactor.faulted = false
  listed (address : ν) (waits : reactor.Pending address) : (reactor.heap address).isSome
  registered (fd : Int) (address : ν) (found : reactor.ioEvents fd = some address) : (reactor.heap address).isSome
  owned (fd : Int) (valid : 0 ≤ fd) :
    reactor.opened fd = true ↔ ∃ address event, reactor.heap address = some event ∧ event.fd = fd
  unique {one two : ν} {first second : IoEvent} (alive : reactor.heap one = some first) (also : reactor.heap two = some second)
    (valid : 0 ≤ first.fd) (same : first.fd = second.fd) : one = two
  coherent {address : ν} {event : IoEvent} (alive : reactor.heap address = some event) (valid : 0 ≤ event.fd)
    (based : event.hasBase) (settled : ¬ reactor.Pending address) :
    reactor.ioEvents event.fd = some address ∧ reactor.epoll event.fd = some event.events.toEpoll
  kept {address : ν} {event : IoEvent} (alive : reactor.heap address = some event) :
    reactor.Pending address ∨ ∃ fd, reactor.ioEvents fd = some address
  reaped {address : ν} {event : IoEvent} (alive : reactor.heap address = some event) (loaded : reactor.stage = .loading)
    (all : reactor.loading = []) : event.status ≠ .del

/-- No event is closed while a sender is between the test and the write of `permit_write`, no sender comes to a
session before its event is made, and no session is opened under an id that is taken. -/
def Undisturbed (reactor : ReactorEvents ν) : ReactorEventAction ν → Prop
  | .delEvent => ∀ address ∈ reactor.permitting, reactor.stage ≠ .handling address
  | .permitWrite address => reactor.opening ≠ some address
  | .setOpen _ taken => taken = false
  | _ => True

/-- The place of a descriptor. `home` gives for each event the descriptor that it has, or had. -/
inductive Place (reactor : ReactorEvents ν) (home : ν → Int) (fd : Int) : Prop where
  | closed (opened : reactor.opened fd = false) (epoll : reactor.epoll fd = none) (registered : reactor.ioEvents fd = none)
      (only : ∀ other, home other = fd → reactor.heap other = none)
  | fresh {address : ν} {event : IoEvent} (opened : reactor.opened fd = true) (epoll : reactor.epoll fd = none)
      (registered : reactor.ioEvents fd = none) (alive : reactor.heap address = some event) (own : event.fd = fd)
      (status : event.status = .none) (base : event.hasBase = false) (io : event.events.isIoEvents)
      (stream : event.kind = .stream → event.events.recv ∧ event.events.send) (waits : reactor.Pending address)
      (alone : address ∈ reactor.loading → address ∉ reactor.changelist) (here : home address = fd)
      (only : ∀ other, home other = fd → other ≠ address → reactor.heap other = none)
  | held {address : ν} {event : IoEvent} {mask : EpollMask} (opened : reactor.opened fd = true)
      (epoll : reactor.epoll fd = some mask) (registered : reactor.ioEvents fd = some address)
      (alive : reactor.heap address = some event) (own : event.fd = fd) (base : event.hasBase)
      (io : event.events.isIoEvents) (stream : event.kind = .stream → event.events.recv)
      (coherent : reactor.Pending address ∨ mask = event.events.toEpoll)
      (status : event.status = .add ∧ (event.kind = .active → ¬ reactor.Pending address) ∨
        event.status = .del ∧ reactor.Due address)
      (here : home address = fd) (only : ∀ other, home other = fd → other ≠ address → reactor.heap other = none)
  | handed {old address : ν} {before event : IoEvent} {mask : EpollMask} (opened : reactor.opened fd = true)
      (epoll : reactor.epoll fd = some mask) (registered : reactor.ioEvents fd = some old)
      (left : reactor.heap old = some before) (gone : before.fd < 0) (active : before.kind = .active)
      (added : before.status = .add) (based : before.hasBase) (settled : ¬ reactor.Pending old)
      (alive : reactor.heap address = some event) (own : event.fd = fd) (status : event.status = .add)
      (base : event.hasBase = false) (kind : event.kind = .stream) (recv : event.events.recv) (send : event.events.send)
      (due : reactor.Due address) (unready : fd ∉ reactor.ready) (here : home address = fd) (there : home old = fd)
      (only : ∀ other, home other = fd → other ≠ address → other ≠ old → reactor.heap other = none)

/-- The invariant: every descriptor has its place. -/
structure Placed (reactor : ReactorEvents ν) (home : ν → Int) : Prop where
  unfaulted : reactor.faulted = false
  place (fd : Int) : reactor.Place home fd
  invalid (fd : Int) (opened : reactor.opened fd = true) : 0 ≤ fd
  listed (address : ν) (waits : reactor.Pending address) : (reactor.heap address).isSome
  once : reactor.loading.Nodup ∧ reactor.changelist.Nodup ∧ reactor.ready.Nodup
  loaded (outside : reactor.stage ≠ .loading) : reactor.loading = []
  unready (outside : reactor.stage = .start ∨ reactor.stage = .loading) : reactor.ready = []
  handles (address : ν) (inside : reactor.stage = .handling address) :
    ∃ event, reactor.heap address = some event ∧ reactor.ioEvents event.fd = some address ∧ 0 ≤ event.fd ∧
      event.fd ∉ reactor.ready
  permits (address : ν) (inside : address ∈ reactor.permitting) :
    ∃ event, reactor.heap address = some event ∧ event.kind = .stream ∧ event.status = .add ∧ event.hasBase

/-- A step that does not come near an event may take the change list over, if the event is due before and after. -/
structure SameWait (reactor next : ReactorEvents ν) (address : ν) : Prop where
  pending : next.Pending address ↔ reactor.Pending address
  due (before : reactor.Due address) : next.Due address
  alone (before : address ∈ reactor.loading → address ∉ reactor.changelist) :
    address ∈ next.loading → address ∉ next.changelist

variable {reactor next : ReactorEvents ν} {home home' : ν → Int} {fd : Int} {address : ν} {event : IoEvent}

theorem SameWait.of_iff (changed : address ∈ next.changelist ↔ address ∈ reactor.changelist)
    (loading : address ∈ next.loading ↔ address ∈ reactor.loading) (stage : next.stage = .loading ↔ reactor.stage = .loading) :
    SameWait reactor next address where
  pending := or_congr changed loading
  due before := by
    refine ⟨fun outside => changed.2 (before.next fun inside => outside (stage.2 inside)), fun inside => ?_⟩
    obtain ⟨now, alone⟩ := before.now (stage.1 inside)
    exact ⟨loading.2 now, fun also => alone (changed.1 also)⟩
  alone before inside also := before (loading.1 inside) (changed.1 also)

/-! ## The other descriptors -/

/-- A step that does not come near a descriptor leaves it in its place. -/
theorem Place.frame (place : reactor.Place home fd) (opened : next.opened fd = reactor.opened fd)
    (epoll : next.epoll fd = reactor.epoll fd) (registered : next.ioEvents fd = reactor.ioEvents fd)
    (same : ∀ address, home' address = fd → home address = fd ∧ next.heap address = reactor.heap address)
    (kept : ∀ address, home address = fd → (reactor.heap address).isSome →
      home' address = fd ∧ SameWait reactor next address)
    (ready : ∀ address, reactor.Due address → fd ∈ next.ready → fd ∈ reactor.ready) : next.Place home' fd := by
  have moved {address : ν} {event : IoEvent} (here : home address = fd) (alive : reactor.heap address = some event) :
      home' address = fd ∧ next.heap address = some event ∧ SameWait reactor next address := by
    obtain ⟨there, waits⟩ := kept address here (alive ▸ rfl)
    exact ⟨there, (same address there).2.trans alive, waits⟩
  cases place with
  | closed closed unknown unregistered only =>
    refine .closed (opened.trans closed) (epoll.trans unknown) (registered.trans unregistered) fun other there => ?_
    obtain ⟨here, unchanged⟩ := same other there
    exact unchanged.trans (only other here)
  | fresh is_open unknown unregistered alive own status base io stream waits alone here only =>
    obtain ⟨there, alive', wait⟩ := moved here alive
    refine .fresh (opened.trans is_open) (epoll.trans unknown) (registered.trans unregistered) alive' own status base io stream
      (wait.pending.2 waits) (wait.alone alone) there fun other at_ different => ?_
    obtain ⟨here, unchanged⟩ := same other at_
    exact unchanged.trans (only other here different)
  | held is_open known is_registered alive own base io stream coherent status here only =>
    obtain ⟨there, alive', wait⟩ := moved here alive
    refine .held (opened.trans is_open) (epoll.trans known) (registered.trans is_registered) alive' own base io stream
      (coherent.imp_left wait.pending.2) ?_ there fun other at_ different => ?_
    · rcases status with ⟨added, active⟩ | ⟨deleted, is_due⟩
      · exact .inl ⟨added, fun kind waits => active kind (wait.pending.1 waits)⟩
      · exact .inr ⟨deleted, wait.due is_due⟩
    · obtain ⟨here, unchanged⟩ := same other at_
      exact unchanged.trans (only other here different)
  | @handed _ address _ _ _ is_open known is_registered left gone active added based settled alive own status base kind recv
      send is_due unready here there only =>
    obtain ⟨here', alive', wait⟩ := moved here alive
    obtain ⟨there', left', quiet⟩ := moved there left
    refine .handed (opened.trans is_open) (epoll.trans known) (registered.trans is_registered) left' gone active added based
      (fun waits => settled (quiet.pending.1 waits)) alive' own status base kind recv send (wait.due is_due)
      (fun inside => unready (ready address is_due inside)) here' there' fun other at_ different also => ?_
    obtain ⟨here, unchanged⟩ := same other at_
    exact unchanged.trans (only other here different also)

/-! ## What the places say of an event -/

/-- The place of its descriptor, as an event sees it. -/
inductive Standing (reactor : ReactorEvents ν) (home : ν → Int) (address : ν) (event : IoEvent) : Prop where
  | fresh (opened : reactor.opened event.fd = true) (epoll : reactor.epoll event.fd = none)
      (registered : reactor.ioEvents event.fd = none) (status : event.status = .none) (base : event.hasBase = false)
      (io : event.events.isIoEvents) (stream : event.kind = .stream → event.events.recv ∧ event.events.send)
      (waits : reactor.Pending address) (alone : address ∈ reactor.loading → address ∉ reactor.changelist)
      (here : home address = event.fd) (only : ∀ other, home other = event.fd → other ≠ address → reactor.heap other = none)
  | held {mask : EpollMask} (opened : reactor.opened event.fd = true) (epoll : reactor.epoll event.fd = some mask)
      (registered : reactor.ioEvents event.fd = some address) (base : event.hasBase) (io : event.events.isIoEvents)
      (stream : event.kind = .stream → event.events.recv)
      (coherent : reactor.Pending address ∨ mask = event.events.toEpoll)
      (status : event.status = .add ∧ (event.kind = .active → ¬ reactor.Pending address) ∨
        event.status = .del ∧ reactor.Due address)
      (here : home address = event.fd) (only : ∀ other, home other = event.fd → other ≠ address → reactor.heap other = none)
  | replacing {old : ν} {before : IoEvent} {mask : EpollMask} (opened : reactor.opened event.fd = true)
      (epoll : reactor.epoll event.fd = some mask) (registered : reactor.ioEvents event.fd = some old)
      (left : reactor.heap old = some before) (gone : before.fd < 0) (active : before.kind = .active)
      (settled : ¬ reactor.Pending old) (status : event.status = .add) (base : event.hasBase = false)
      (recv : event.events.recv) (send : event.events.send) (due : reactor.Due address) (here : home address = event.fd)
      (there : home old = event.fd)
      (only : ∀ other, home other = event.fd → other ≠ address → other ≠ old → reactor.heap other = none)
  | replaced (opened : reactor.opened (home address) = true) (registered : reactor.ioEvents (home address) = some address)
      (gone : event.fd < 0) (active : event.kind = .active) (status : event.status = .add)
      (settled : ¬ reactor.Pending address)

namespace Placed

theorem standing (placed : reactor.Placed home) (alive : reactor.heap address = some event) :
    Standing reactor home address event := by
  cases placed.place (home address) with
  | closed _ _ _ only => cases (only address rfl).symm.trans alive
  | @fresh other first opened epoll registered known own status base io stream waits alone here only =>
    by_cases same : address = other
    · subst same
      cases known.symm.trans alive
      rw [← own] at opened epoll registered only
      exact .fresh opened epoll registered status base io stream waits alone own.symm only
    · cases (only address rfl same).symm.trans alive
  | @held other first mask opened epoll registered known own base io stream coherent status here only =>
    by_cases same : address = other
    · subst same
      cases known.symm.trans alive
      rw [← own] at opened epoll registered only
      exact .held opened epoll registered base io stream coherent status own.symm only
    · cases (only address rfl same).symm.trans alive
  | @handed old other before first mask opened epoll registered left gone active added _ settled known own status base _ recv send
      due _ _ there only =>
    by_cases same : address = other
    · subst same
      cases known.symm.trans alive
      rw [← own] at opened epoll registered there only
      exact .replacing opened epoll registered left gone active settled status base recv send due own.symm there only
    · by_cases also : address = old
      · subst also
        cases left.symm.trans alive
        exact .replaced opened registered gone active added settled
      · cases (only address rfl same also).symm.trans alive

theorem home_eq (placed : reactor.Placed home) (alive : reactor.heap address = some event) (valid : 0 ≤ event.fd) :
    home address = event.fd := by
  cases placed.standing alive with
  | fresh _ _ _ _ _ _ _ _ _ here => exact here
  | held _ _ _ _ _ _ _ _ here => exact here
  | replacing _ _ _ _ _ _ _ _ _ _ _ _ here => exact here
  | replaced _ _ gone => omega

theorem registered_alive (placed : reactor.Placed home) (found : reactor.ioEvents fd = some address) :
    (reactor.heap address).isSome := by
  cases placed.place fd with
  | closed _ _ nothing => cases nothing.symm.trans found
  | fresh _ _ nothing => cases nothing.symm.trans found
  | held _ _ registered alive =>
    cases registered.symm.trans found
    rw [alive]
    rfl
  | handed _ _ registered left =>
    cases registered.symm.trans found
    rw [left]
    rfl

/-- One event alone is alive that has the descriptor. -/
theorem alone_at (placed : reactor.Placed home) {one two : ν} {first second : IoEvent}
    (alive : reactor.heap one = some first) (also : reactor.heap two = some second) (valid : 0 ≤ first.fd)
    (same : first.fd = second.fd) : one = two := by
  have there : home two = first.fd := (placed.home_eq also (same ▸ valid)).trans same.symm
  by_contra different
  have dead (only : ∀ other, home other = first.fd → other ≠ one → reactor.heap other = none) : False := by
    cases (only two there (Ne.symm different)).symm.trans also
  cases placed.standing alive with
  | fresh _ _ _ _ _ _ _ _ _ _ only => exact dead only
  | held _ _ _ _ _ _ _ _ _ only => exact dead only
  | @replacing old before _ _ _ _ left gone _ _ _ _ _ _ _ _ _ only =>
    by_cases the_old : two = old
    · subst the_old
      cases left.symm.trans also
      omega
    · cases (only two there (Ne.symm different) the_old).symm.trans also
  | replaced _ _ gone => omega

theorem safe (placed : reactor.Placed home) : reactor.Safe where
  unfaulted := placed.unfaulted
  listed := placed.listed
  registered _ _ found := placed.registered_alive found
  owned fd valid := by
    cases placed.place fd with
    | closed opened _ _ only =>
      refine ⟨fun is_open => absurd (opened.symm.trans is_open) Bool.false_ne_true, fun owner => ?_⟩
      obtain ⟨address, event, alive, rfl⟩ := owner
      cases (only address (placed.home_eq alive valid)).symm.trans alive
    | @fresh address event opened _ _ alive own => exact ⟨fun _ => ⟨address, event, alive, own⟩, fun _ => opened⟩
    | @held address event _ opened _ _ alive own => exact ⟨fun _ => ⟨address, event, alive, own⟩, fun _ => opened⟩
    | @handed old address before event _ opened _ _ _ _ _ _ _ _ alive own =>
      exact ⟨fun _ => ⟨address, event, alive, own⟩, fun _ => opened⟩
  unique := placed.alone_at
  coherent alive valid based settled := by
    cases placed.standing alive with
    | fresh _ _ _ _ base => cases base.symm.trans based
    | held _ epoll registered _ _ _ coherent =>
      exact ⟨registered, epoll.trans (congrArg some (coherent.resolve_left settled))⟩
    | replacing _ _ _ _ _ _ _ _ base => cases base.symm.trans based
    | replaced _ _ gone => omega
  kept alive := by
    cases placed.standing alive with
    | fresh _ _ _ _ _ _ _ waits => exact .inl waits
    | held _ _ registered => exact .inr ⟨_, registered⟩
    | replacing _ _ _ _ _ _ _ _ _ _ _ due =>
      by_cases stage : reactor.stage = .loading
      · exact .inl (.inr (due.now stage).1)
      · exact .inl (.inl (due.next stage))
    | replaced _ registered => exact .inr ⟨_, registered⟩
  reaped alive loaded all deleted := by
    cases placed.standing alive with
    | fresh _ _ _ status => cases status.symm.trans deleted
    | held _ _ _ _ _ _ _ status =>
      rcases status with ⟨added, -⟩ | ⟨-, due⟩
      · cases added.symm.trans deleted
      · exact List.not_mem_nil (all ▸ (due.now loaded).1)
    | replacing _ _ _ _ _ _ _ status => cases status.symm.trans deleted
    | replaced _ _ _ _ status => cases status.symm.trans deleted

/-! ## Events that are in use -/

/-- The event whose handler runs is registered, and `load_event` has come to it. -/
theorem held_handling (placed : reactor.Placed home) (inside : reactor.stage = .handling address) :
    ∃ event, reactor.heap address = some event ∧ reactor.ioEvents event.fd = some address ∧ 0 ≤ event.fd ∧
      event.fd ∉ reactor.ready ∧ event.hasBase ∧ event.status ≠ .none := by
  obtain ⟨event, alive, registered, valid, unready⟩ := placed.handles address inside
  refine ⟨event, alive, registered, valid, unready, ?_⟩
  cases placed.standing alive with
  | fresh _ _ nothing => cases nothing.symm.trans registered
  | held _ _ _ base _ _ _ status =>
    refine ⟨base, fun none => ?_⟩
    rcases status with ⟨added, -⟩ | ⟨deleted, -⟩
    · cases added.symm.trans none
    · cases deleted.symm.trans none
  | replacing _ _ found left gone =>
    cases found.symm.trans registered
    cases left.symm.trans alive
    omega
  | replaced _ _ gone => omega

theorem io_of_valid (placed : reactor.Placed home) (alive : reactor.heap address = some event) (valid : 0 ≤ event.fd) :
    event.events.isIoEvents := by
  cases placed.standing alive with
  | fresh _ _ _ _ _ io => exact io
  | held _ _ _ _ io => exact io
  | replacing _ _ _ _ _ _ _ _ _ recv => simp [EventMask.isIoEvents, recv]
  | replaced _ _ gone => omega

theorem registered_of_based (placed : reactor.Placed home) (alive : reactor.heap address = some event)
    (base : event.hasBase) (kind : event.kind ≠ .active) : reactor.ioEvents event.fd = some address ∧ 0 ≤ event.fd := by
  cases placed.standing alive with
  | fresh _ _ _ _ unbased => cases unbased.symm.trans base
  | held opened _ registered => exact ⟨registered, placed.invalid _ opened⟩
  | replacing _ _ _ _ _ _ _ _ unbased => cases unbased.symm.trans base
  | replaced _ _ _ active => exact absurd active kind

theorem stream_recv (placed : reactor.Placed home) (alive : reactor.heap address = some event) (kind : event.kind = .stream) :
    event.events.recv := by
  cases placed.standing alive with
  | fresh _ _ _ _ _ _ stream => exact (stream kind).1
  | held _ _ _ _ _ stream => exact stream kind
  | replacing _ _ _ _ _ _ _ _ _ recv => exact recv
  | replaced _ _ _ active => cases active.symm.trans kind

/-- The constructors of streams ask for `EVENT_SEND`, so only an event that is loaded can be without. -/
theorem based_of_not_send (placed : reactor.Placed home) (alive : reactor.heap address = some event)
    (kind : event.kind = .stream) (send : event.events.send = false) (status : event.status ≠ .del) :
    event.status = .add ∧ event.hasBase := by
  cases placed.standing alive with
  | fresh _ _ _ _ _ _ stream => cases send.symm.trans (stream kind).2
  | held _ _ _ base _ _ _ which =>
    rcases which with ⟨added, -⟩ | ⟨deleted, -⟩
    · exact ⟨added, base⟩
    · exact absurd deleted status
  | replacing _ _ _ _ _ _ _ _ _ _ sends => cases send.symm.trans sends
  | replaced _ _ _ active => cases active.symm.trans kind

end Placed
end ReactorEvents
end Cassobee
