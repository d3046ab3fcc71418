import Cassobee.Proofs.ReactorPlaces
import Cassobee.Support.Run

/-! Every action keeps the places of descriptors, as long as no event is closed under a sender: no pointer
dangles, no descriptor leaks, and epoll watches for what the events ask. -/

namespace Cassobee
open Support
open ReactorTimers (EventStatus)
variable {ν : Type}

namespace ReactorEvents
namespace Placed
variable {reactor : ReactorEvents ν} {home : ν → Int} {fd : Int} {address : ν} {event : IoEvent}

theorem initial : (ReactorEvents.initial : ReactorEvents ν).Placed fun _ => 0 where
  unfaulted := rfl
  place _ := .closed rfl rfl rfl fun _ _ => rfl
  invalid _ opened := absurd opened Bool.false_ne_true
  listed _ waits := waits.elim (absurd · List.not_mem_nil) (absurd · List.not_mem_nil)
  once := ⟨List.nodup_nil, List.nodup_nil, List.nodup_nil⟩
  loaded _ := rfl
  unready _ := rfl
  handles _ inside := by cases inside
  permits _ inside := absurd inside List.not_mem_nil

/-! ## The steps of the loop -/

/-- The loop goes on to the next descriptor, or to the next passage. -/
theorem moves (placed : reactor.Placed home) {stage : LoopStage ν} {ready : List Int} (before : reactor.stage ≠ .loading)
    (after : stage ≠ .loading) (fewer : ready.Sublist reactor.ready) (empty : stage = .start → ready = [])
    (handles : ∀ address, stage = .handling address →
      ∃ event, reactor.heap address = some event ∧ reactor.ioEvents event.fd = some address ∧ 0 ≤ event.fd ∧
        event.fd ∉ ready) : ({ reactor with stage, ready } : ReactorEvents ν).Placed home where
  unfaulted := placed.unfaulted
  place fd := by
    refine (placed.place fd).frame rfl rfl rfl ?_ ?_ ?_
    · exact fun _ here => ⟨here, rfl⟩
    · exact fun _ here _ => ⟨here, .of_iff .rfl .rfl (iff_of_false after before)⟩
    · exact fun _ _ inside => fewer.subset inside
  invalid := placed.invalid
  listed := placed.listed
  once := ⟨placed.once.1, placed.once.2.1, placed.once.2.2.sublist fewer⟩
  loaded _ := placed.loaded before
  unready outside := outside.elim empty (absurd · after)
  handles := handles
  permits := placed.permits

theorem readChanges (placed : reactor.Placed home) (start : reactor.stage = .start) :
    ({ reactor with loading := reactor.changelist, changelist := [], stage := .loading } : ReactorEvents ν).Placed home := by
  have outside : reactor.stage ≠ .loading := by simp [start]
  have nothing := placed.loaded outside
  have pending (address : ν) :
      ReactorEvents.Pending ({ reactor with loading := reactor.changelist, changelist := [], stage := .loading }) address ↔
        reactor.Pending address := by simp [Pending, nothing]
  exact {
    unfaulted := placed.unfaulted
    place fd := by
      refine (placed.place fd).frame rfl rfl rfl ?_ ?_ ?_
      · exact fun _ here => ⟨here, rfl⟩
      · refine fun address here _ => ⟨here, ⟨pending address, fun due => ?_, fun _ _ => List.not_mem_nil⟩⟩
        exact ⟨fun inside => absurd rfl inside, fun _ => ⟨due.next outside, List.not_mem_nil⟩⟩
      · exact fun _ _ inside => inside
    invalid := placed.invalid
    listed address waits := placed.listed address ((pending address).1 waits)
    once := ⟨placed.once.2.1, List.nodup_nil, placed.once.2.2⟩
    loaded inside := absurd rfl inside
    unready _ := placed.unready (.inl start)
    handles _ inside := by cases inside
    permits := placed.permits }

/-- When everything is loaded nothing is due. -/
theorem epollWait (placed : reactor.Placed home) {fds : List Int} (stage : reactor.stage = .loading)
    (all : reactor.loading = []) (different : fds.Nodup) :
    ({ reactor with ready := fds, stage := .dispatching } : ReactorEvents ν).Placed home where
  unfaulted := placed.unfaulted
  place fd := by
    have idle (address : ν) : ¬ reactor.Due address := fun due => List.not_mem_nil (all ▸ (due.now stage).1)
    refine (placed.place fd).frame rfl rfl rfl ?_ ?_ ?_
    · exact fun _ here => ⟨here, rfl⟩
    · exact fun address here _ => ⟨here, ⟨.rfl, fun due => absurd due (idle address), fun before => before⟩⟩
    · exact fun address due _ => absurd due (idle address)
  invalid := placed.invalid
  listed := placed.listed
  once := ⟨placed.once.1, placed.once.2.1, different⟩
  loaded _ := all
  unready outside := by rcases outside with start | loading <;> contradiction
  handles _ inside := by cases inside
  permits := placed.permits

theorem permitting (placed : reactor.Placed home) {permitting : List ν}
    (permits : ∀ address ∈ permitting,
      ∃ event, reactor.heap address = some event ∧ event.kind = .stream ∧ event.status = .add ∧ event.hasBase) :
    ({ reactor with permitting } : ReactorEvents ν).Placed home where
  unfaulted := placed.unfaulted
  place fd := by
    refine (placed.place fd).frame rfl rfl rfl ?_ ?_ ?_
    · exact fun _ here => ⟨here, rfl⟩
    · exact fun _ here _ => ⟨here, .of_iff .rfl .rfl .rfl⟩
    · exact fun _ _ inside => inside
  invalid := placed.invalid
  listed := placed.listed
  once := placed.once
  loaded := placed.loaded
  unready := placed.unready
  handles := placed.handles
  permits := permits

theorem opening (placed : reactor.Placed home) (opening : Option ν) : ({ reactor with opening } : ReactorEvents ν).Placed home where
  unfaulted := placed.unfaulted
  place fd := by
    refine (placed.place fd).frame rfl rfl rfl ?_ ?_ ?_
    · exact fun _ here => ⟨here, rfl⟩
    · exact fun _ here _ => ⟨here, .of_iff .rfl .rfl .rfl⟩
    · exact fun _ _ inside => inside
  invalid := placed.invalid
  listed := placed.listed
  once := placed.once
  loaded := placed.loaded
  unready := placed.unready
  handles := placed.handles
  permits := placed.permits

theorem returns (placed : reactor.Placed home) (inside : reactor.stage = .handling address) :
    ({ reactor with stage := .dispatching } : ReactorEvents ν).Placed home := by
  refine placed.moves (by simp [inside]) (by simp) (.refl _) (fun start => ?_) fun other running => ?_
  · cases start
  · cases running

theorem dispatches {next : ReactorEvents ν} (placed : reactor.Placed home) (stepped : reactor.dispatch = some next) :
    next.Placed home := by
  unfold dispatch at stepped
  split at stepped
  · rename_i stage ready
    cases stepped
    refine placed.moves (by simp [stage]) (by simp) (.refl _) (fun _ => ready) fun address inside => ?_
    cases inside
  · rename_i fd rest stage ready
    have outside : reactor.stage ≠ .loading := by simp [stage]
    have fewer : rest.Sublist reactor.ready := ready ▸ List.sublist_cons_self fd rest
    have skip : ({ reactor with ready := rest } : ReactorEvents ν).Placed home := by
      refine placed.moves outside outside fewer ?_ ?_
      · exact fun start => by cases stage.symm.trans start
      · exact fun address inside => by cases stage.symm.trans inside
    cases found : reactor.ioEvents fd with
    | none =>
      simp only [found] at stepped
      cases stepped
      exact skip
    | some address =>
      obtain ⟨event, alive⟩ := Option.isSome_iff_exists.1 (placed.registered_alive found)
      simp only [found, alive] at stepped
      cases placed.place fd with
      | closed _ _ nothing => cases nothing.symm.trans found
      | fresh _ _ nothing => cases nothing.symm.trans found
      | held opened _ registered known own =>
        cases registered.symm.trans found
        cases known.symm.trans alive
        have valid : 0 ≤ event.fd := own ▸ placed.invalid fd opened
        split at stepped
        · rw [if_neg (by omega)] at stepped
          cases stepped
          refine placed.moves outside (by simp) fewer ?_ ?_
          · exact fun start => by cases start
          · intro other inside
            cases inside
            subst own
            refine ⟨event, alive, found, valid, ?_⟩
            exact (List.nodup_cons.1 (ready ▸ placed.once.2.2)).1
        · cases stepped
          exact skip
      | handed _ _ _ _ _ _ _ _ _ _ _ _ _ _ _ _ _ unready => exact absurd (ready ▸ List.mem_cons_self) unready
  · cases stepped

theorem handling_eq_some (running : reactor.handling = some (address, event)) :
    reactor.stage = .handling address ∧ reactor.heap address = some event := by
  unfold handling at running
  split at running
  · rename_i other stage
    obtain ⟨its, alive, same⟩ := Option.map_eq_some_iff.1 running
    cases same
    exact ⟨stage, alive⟩
  · cases running

/-! ## The steps that touch an event -/

variable [DecidableEq ν]

/-- A socket is opened, and its event waits to be loaded. -/
theorem opens (placed : reactor.Placed home) (unused : reactor.heap address = none) (valid : 0 ≤ event.fd)
    (closed : reactor.opened event.fd = false) (status : event.status = .none) (base : event.hasBase = false)
    (io : event.events.isIoEvents) (stream : event.kind = .stream → event.events.recv ∧ event.events.send) :
    ((({ reactor with opened := Function.update reactor.opened event.fd true } : ReactorEvents ν).set address event).write
      address).Placed (Function.update home address event.fd) := by
  have quiet : ¬ reactor.Pending address := by
    intro waits
    have alive := placed.listed address waits
    rw [unused] at alive
    cases alive
  have other_mem {other : ν} (different : other ≠ address) :
      other ∈ reactor.changelist.insert address ↔ other ∈ reactor.changelist := by simp [different]
  exact {
    unfaulted := placed.unfaulted
    place fd := by
      by_cases same : fd = event.fd
      · subst same
        cases placed.place event.fd with
        | closed _ unknown unregistered only =>
          refine .fresh (Function.update_self ..) unknown unregistered (Function.update_self ..) rfl status base io stream
            (.inl List.mem_insert_self) (fun inside => absurd (.inr inside) quiet) (Function.update_self ..)
            fun other there different => ?_
          rw [Function.update_of_ne different] at there
          exact (Function.update_of_ne different ..).trans (only other there)
        | fresh opened => cases opened.symm.trans closed
        | held opened => cases opened.symm.trans closed
        | handed opened => cases opened.symm.trans closed
      · refine (placed.place fd).frame (Function.update_of_ne same ..) rfl rfl ?_ ?_ fun _ _ inside => inside
        · intro other there
          have different : other ≠ address := by
            rintro rfl
            exact same (there.symm.trans (Function.update_self ..))
          rw [Function.update_of_ne different] at there
          exact ⟨there, Function.update_of_ne different ..⟩
        · intro other here alive
          have different : other ≠ address := by
            rintro rfl
            rw [unused] at alive
            cases alive
          exact ⟨(Function.update_of_ne different ..).trans here, .of_iff (other_mem different) .rfl .rfl⟩
    invalid fd opened := by
      by_cases same : fd = event.fd
      · exact same ▸ valid
      · exact placed.invalid fd ((Function.update_of_ne same ..).symm.trans opened)
    listed other waits := by
      by_cases same : other = address
      · subst same
        simp [set, write]
      · have before : reactor.Pending other := waits.imp_left (other_mem same).1
        simpa [set, write, same] using placed.listed other before
    once := ⟨placed.once.1, placed.once.2.1.insert, placed.once.2.2⟩
    loaded := placed.loaded
    unready := placed.unready
    handles other inside := by
      obtain ⟨its, alive, rest⟩ := placed.handles other inside
      refine ⟨its, ?_, rest⟩
      rw [← alive]
      apply Function.update_of_ne
      rintro rfl
      cases unused.symm.trans alive
    permits other inside := by
      obtain ⟨its, alive, rest⟩ := placed.permits other inside
      refine ⟨its, ?_, rest⟩
      rw [← alive]
      apply Function.update_of_ne
      rintro rfl
      cases unused.symm.trans alive }

/-- An event that is registered gets other events, or is closed. -/
theorem changes (placed : reactor.Placed home) (alive : reactor.heap address = some event)
    (registered : reactor.ioEvents event.fd = some address) (valid : 0 ≤ event.fd) {events : EventMask} {status : EventStatus}
    (io : events.isIoEvents) (stream : event.kind = .stream → events.recv)
    (which : status = .add ∧ event.kind ≠ .active ∨ status = .del ∧ reactor.stage ≠ .loading)
    (permitted : address ∈ reactor.permitting → status = .add) :
    ((reactor.set address { event with status, events }).write address).Placed home := by
  have other_mem {other : ν} (different : other ≠ address) :
      other ∈ reactor.changelist.insert address ↔ other ∈ reactor.changelist := by simp [different]
  exact {
    unfaulted := placed.unfaulted
    place fd := by
      by_cases same : fd = event.fd
      · subst same
        cases placed.place event.fd with
        | closed _ _ nothing => cases nothing.symm.trans registered
        | fresh _ _ nothing => cases nothing.symm.trans registered
        | held opened epoll found known _ base _ _ _ _ here only =>
          cases found.symm.trans registered
          cases known.symm.trans alive
          refine .held opened epoll registered (Function.update_self ..) rfl base io stream
            (.inl (.inl List.mem_insert_self)) ?_ here fun other there different => ?_
          · refine which.imp (fun added => ⟨added.1, fun kind => absurd kind added.2⟩) fun deleted => ⟨deleted.1, ?_⟩
            exact ⟨fun _ => List.mem_insert_self, fun inside => absurd inside deleted.2⟩
          · exact (Function.update_of_ne different ..).trans (only other there different)
        | handed _ _ found left gone =>
          cases found.symm.trans registered
          cases left.symm.trans alive
          omega
      · have here := placed.home_eq alive valid
        refine (placed.place fd).frame rfl rfl rfl ?_ ?_ fun _ _ inside => inside
        · intro other there
          refine ⟨there, Function.update_of_ne ?_ ..⟩
          rintro rfl
          exact same (there.symm.trans here)
        · intro other there _
          refine ⟨there, .of_iff (other_mem ?_) .rfl .rfl⟩
          rintro rfl
          exact same (there.symm.trans here)
    invalid := placed.invalid
    listed other waits := by
      by_cases same : other = address
      · subst same
        simp [set, write]
      · have before : reactor.Pending other := waits.imp_left (other_mem same).1
        simpa [set, write, same] using placed.listed other before
    once := ⟨placed.once.1, placed.once.2.1.insert, placed.once.2.2⟩
    loaded := placed.loaded
    unready := placed.unready
    handles other inside := by
      obtain ⟨its, lives, rest⟩ := placed.handles other inside
      by_cases same : other = address
      · subst same
        cases alive.symm.trans lives
        exact ⟨_, Function.update_self .., rest⟩
      · exact ⟨its, (Function.update_of_ne same ..).trans lives, rest⟩
    permits other inside := by
      obtain ⟨its, lives, kind, added, base⟩ := placed.permits other inside
      by_cases same : other = address
      · subst same
        cases alive.symm.trans lives
        exact ⟨_, Function.update_self .., kind, permitted inside, base⟩
      · exact ⟨its, (Function.update_of_ne same ..).trans lives, kind, added, base⟩ }

/-- `connected`: a session goes over to an event of its own, which is to take the place of `old`. -/
theorem hands (placed : reactor.Placed home) {old : ν} (inside : reactor.stage = .handling old)
    (alive : reactor.heap old = some event) (kind : event.kind = .active) (added : event.status = .add)
    (unused : reactor.heap address = none) :
    (((({ reactor with stage := .dispatching } : ReactorEvents ν).set old { event with fd := -1 }).set address
      ⟨.stream, event.fd, .add, ⟨false, true, true, true, false⟩, false⟩).write address).Placed
        (Function.update home address event.fd) := by
  obtain ⟨its, lives, registered, valid, unready, based, -⟩ := placed.held_handling inside
  cases alive.symm.trans lives
  have different : old ≠ address := by
    rintro rfl
    cases unused.symm.trans alive
  have quiet : ¬ reactor.Pending address := by
    intro waits
    have alive := placed.listed address waits
    rw [unused] at alive
    cases alive
  have other_mem {other : ν} (different : other ≠ address) :
      other ∈ reactor.changelist.insert address ↔ other ∈ reactor.changelist := by simp [different]
  have outside : reactor.stage ≠ .loading := by simp [inside]
  have apart {other : ν} (one : other ≠ old) (two : other ≠ address) (first second : Option IoEvent) :
      Function.update (Function.update reactor.heap old first) address second other = reactor.heap other :=
    (Function.update_of_ne two ..).trans (Function.update_of_ne one ..)
  have at_old (first second : Option IoEvent) :
      Function.update (Function.update reactor.heap old first) address second old = first :=
    (Function.update_of_ne different ..).trans (Function.update_self ..)
  have here := placed.home_eq alive valid
  exact {
    unfaulted := placed.unfaulted
    place fd := by
      by_cases same : fd = event.fd
      · subst same
        cases placed.place event.fd with
        | closed _ _ nothing => cases nothing.symm.trans registered
        | fresh _ _ nothing => cases nothing.symm.trans registered
        | held opened epoll found known _ _ _ _ _ status _ only =>
          cases found.symm.trans registered
          cases known.symm.trans alive
          have settled : ¬ reactor.Pending old := by
            rcases status with ⟨-, active⟩ | ⟨deleted, -⟩
            · exact active kind
            · cases deleted.symm.trans added
          refine .handed opened epoll registered (at_old ..) (Int.negSucc_lt_zero 0) kind added based
            (fun waits => settled (waits.imp_left (other_mem different).1)) (Function.update_self ..) rfl rfl rfl rfl rfl rfl
            ⟨fun _ => List.mem_insert_self, fun loading => by cases loading⟩ unready (Function.update_self ..)
            ((Function.update_of_ne different ..).trans here) fun other there two one => ?_
          rw [Function.update_of_ne two] at there
          exact (apart one two ..).trans (only other there one)
        | handed _ _ found left gone =>
          cases found.symm.trans registered
          cases left.symm.trans alive
          omega
      · refine (placed.place fd).frame rfl rfl rfl ?_ ?_ fun _ _ inside => inside
        · intro other there
          have two : other ≠ address := by
            rintro rfl
            exact same (there.symm.trans (Function.update_self ..))
          rw [Function.update_of_ne two] at there
          refine ⟨there, apart ?_ two ..⟩
          rintro rfl
          exact same (there.symm.trans here)
        · intro other there lives
          have two : other ≠ address := by
            rintro rfl
            rw [unused] at lives
            cases lives
          have elsewhere : LoopStage.dispatching (ν := ν) = .loading ↔ reactor.stage = .loading := iff_of_false (by simp) outside
          exact ⟨(Function.update_of_ne two ..).trans there, .of_iff (other_mem two) .rfl elsewhere⟩
    invalid := placed.invalid
    listed other waits := by
      by_cases two : other = address
      · subst two
        simp [set, write]
      · by_cases one : other = old
        · subst one
          simp [set, write, two]
        · have before : reactor.Pending other := waits.imp_left (other_mem two).1
          simpa [set, write, one, two] using placed.listed other before
    once := ⟨placed.once.1, placed.once.2.1.insert, placed.once.2.2⟩
    loaded _ := placed.loaded outside
    unready inside := by rcases inside with start | loading <;> contradiction
    handles _ inside := by cases inside
    permits other inside := by
      obtain ⟨its, sending, stream, rest⟩ := placed.permits other inside
      refine ⟨its, ?_, stream, rest⟩
      rw [← sending]
      refine apart ?_ ?_ ..
      · rintro rfl
        cases alive.symm.trans sending
        cases kind.symm.trans stream
      · rintro rfl
        cases unused.symm.trans sending }

/-! ## Loading an event -/

section
variable {heap : ν → Option IoEvent} {opened : Int → Bool} {epoll : Int → Option EpollMask} {ioEvents : Int → Option ν}

/-- To load an event is to find a new place for its descriptor. -/
theorem settles (placed : reactor.Placed home) (stage : reactor.stage = .loading) (here : home address = fd)
    (elsewhere : ∀ other ≠ fd,
      opened other = reactor.opened other ∧ epoll other = reactor.epoll other ∧ ioEvents other = reactor.ioEvents other)
    (others : ∀ other, home other ≠ fd → heap other = reactor.heap other)
    (fewer : opened fd = true → reactor.opened fd = true)
    (place : ReactorEvents.Place
      { reactor with loading := reactor.loading.erase address, heap, opened, epoll, ioEvents } home fd)
    (listed : ∀ other, home other = fd → other ∈ reactor.changelist ∨ other ∈ reactor.loading.erase address →
      (heap other).isSome)
    (permits : ∀ other ∈ reactor.permitting, home other = fd →
      ∃ event, heap other = some event ∧ event.kind = .stream ∧ event.status = .add ∧ event.hasBase) :
    ({ reactor with loading := reactor.loading.erase address, heap, opened, epoll, ioEvents } : ReactorEvents ν).Placed
      home where
  unfaulted := placed.unfaulted
  place other := by
    by_cases same : other = fd
    · exact same ▸ place
    · obtain ⟨unopened, unknown, unregistered⟩ := elsewhere other same
      refine (placed.place other).frame unopened unknown unregistered ?_ ?_ fun _ _ inside => inside
      · exact fun another there => ⟨there, others another (there ▸ same)⟩
      · refine fun another there _ => ⟨there, .of_iff .rfl (List.mem_erase_of_ne ?_) .rfl⟩
        rintro rfl
        exact same (there.symm.trans here)
  invalid other is_open := by
    by_cases same : other = fd
    · subst same
      exact placed.invalid other (fewer is_open)
    · exact placed.invalid other ((elsewhere other same).1.symm.trans is_open)
  listed other waits := by
    by_cases same : home other = fd
    · exact listed other same waits
    · have before : reactor.Pending other := waits.imp_right List.mem_of_mem_erase
      exact (congrArg Option.isSome (others other same)).trans (placed.listed other before)
  once := ⟨placed.once.1.erase _, placed.once.2⟩
  loaded outside := absurd stage outside
  unready := placed.unready
  handles _ inside := by cases stage.symm.trans inside
  permits other inside := by
    by_cases same : home other = fd
    · exact permits other inside same
    · obtain ⟨its, lives, rest⟩ := placed.permits other inside
      exact ⟨its, (others other same).trans lives, rest⟩

end

/-- The event is registered from now on, and nothing else is alive that has, or had, its descriptor. -/
theorem settles_alive (placed : reactor.Placed home) (stage : reactor.stage = .loading) {heap : ν → Option IoEvent}
    (waits : address ∈ reactor.loading) (alive : reactor.heap address = some event) (here : home address = event.fd)
    (opened : reactor.opened event.fd = true) (io : event.events.isIoEvents)
    (stream : event.kind = .stream → event.events.recv) (active : event.kind = .active → address ∉ reactor.changelist)
    (others : ∀ other, home other ≠ event.fd → heap other = reactor.heap other)
    (only : ∀ other, home other = event.fd → other ≠ address →
      heap other = none ∧ (reactor.heap other = none ∨ ¬ reactor.Pending other ∧ other ∉ reactor.permitting)) :
    ({ reactor with
        loading := reactor.loading.erase address
        heap := Function.update heap address (some { event with status := .add, hasBase := true })
        epoll := Function.update reactor.epoll event.fd (some event.events.toEpoll)
        ioEvents := Function.update reactor.ioEvents event.fd (some address) } : ReactorEvents ν).Placed home := by
  refine placed.settles stage here ?_ ?_ (fun opened => opened) ?_ ?_ ?_
  · exact fun other different => ⟨rfl, Function.update_of_ne different .., Function.update_of_ne different ..⟩
  · refine fun other apart => (Function.update_of_ne ?_ ..).trans (others other apart)
    rintro rfl
    exact apart here
  · refine .held opened (Function.update_self ..) (Function.update_self ..) (Function.update_self ..) rfl rfl io stream (.inr rfl)
      (.inl ⟨rfl, fun kind again => ?_⟩) here fun other there different => ?_
    · exact again.elim (active kind) placed.once.1.not_mem_erase
    · exact (Function.update_of_ne different ..).trans (only other there different).1
  · intro other there again
    by_cases same : other = address
    · subst same
      simp
    · have before : reactor.Pending other := again.imp_right List.mem_of_mem_erase
      rcases (only other there same).2 with dead | ⟨settled, -⟩
      · have lives := placed.listed other before
        rw [dead] at lives
        cases lives
      · exact absurd before settled
  · intro other inside there
    obtain ⟨its, lives, kind, -⟩ := placed.permits other inside
    by_cases same : other = address
    · subst same
      cases alive.symm.trans lives
      exact ⟨_, Function.update_self .., kind, rfl, rfl⟩
    · rcases (only other there same).2 with dead | ⟨-, unused⟩
      · cases dead.symm.trans lives
      · exact absurd inside unused

theorem load_fresh (alive : reactor.heap address = some event) (status : event.status = .none) (io : event.events.isIoEvents)
    (opened : reactor.opened event.fd = true) (epoll : reactor.epoll event.fd = none)
    (registered : reactor.ioEvents event.fd = none) :
    reactor.load address = some { reactor with
      loading := reactor.loading.erase address
      heap := Function.update reactor.heap address (some { event with status := .add, hasBase := true })
      epoll := Function.update reactor.epoll event.fd (some event.events.toEpoll)
      ioEvents := Function.update reactor.ioEvents event.fd (some address) } := by
  simp [load, alive, deletes, status, addEventInner, io, substituted, registered, register, epollAdd, opened, epoll, set]

theorem load_held {mask : EpollMask} (alive : reactor.heap address = some event) (status : event.status = .add)
    (io : event.events.isIoEvents) (epoll : reactor.epoll event.fd = some mask)
    (registered : reactor.ioEvents event.fd = some address) :
    reactor.load address = some { reactor with
      loading := reactor.loading.erase address
      heap := Function.update reactor.heap address (some { event with status := .add, hasBase := true })
      epoll := Function.update reactor.epoll event.fd (some event.events.toEpoll)
      ioEvents := Function.update reactor.ioEvents event.fd (some address) } := by
  simp [load, alive, deletes, status, addEventInner, io, substituted, Option.filter_some, registered, register, epollAdd, epoll,
    set]

theorem load_closed (alive : reactor.heap address = some event) (status : event.status = .del) (io : event.events.isIoEvents)
    (registered : reactor.ioEvents event.fd = some address) (valid : 0 ≤ event.fd) (unused : address ∉ reactor.permitting) :
    reactor.load address = some { reactor with
      loading := reactor.loading.erase address
      heap := Function.update reactor.heap address none
      opened := Function.update reactor.opened event.fd false
      epoll := Function.update reactor.epoll event.fd none
      ioEvents := Function.update reactor.ioEvents event.fd none } := by
  simp [load, alive, deletes, status, delEventInner, io, registered, free, valid, unused]

theorem load_handed {old : ν} {before : IoEvent} {mask : EpollMask} (alive : reactor.heap address = some event)
    (status : event.status = .add) (io : event.events.isIoEvents) (epoll : reactor.epoll event.fd = some mask)
    (registered : reactor.ioEvents event.fd = some old) (different : old ≠ address) (left : reactor.heap old = some before)
    (gone : before.fd < 0) (unused : old ∉ reactor.permitting) :
    reactor.load address = some { reactor with
      loading := reactor.loading.erase address
      heap := Function.update (Function.update reactor.heap old none) address
        (some { event with status := .add, hasBase := true })
      epoll := Function.update reactor.epoll event.fd (some event.events.toEpoll)
      ioEvents := Function.update reactor.ioEvents event.fd (some address) } := by
  have negative : ¬ 0 ≤ before.fd := by omega
  simp [load, alive, deletes, status, addEventInner, io, substituted, Option.filter_some, registered, different, left, free,
    negative, unused, register, epollAdd, epoll, set]

theorem loads {next : ReactorEvents ν} (placed : reactor.Placed home) (stage : reactor.stage = .loading)
    (waits : address ∈ reactor.loading) (loaded : reactor.load address = some next) : next.Placed home := by
  obtain ⟨event, alive⟩ := Option.isSome_iff_exists.1 (placed.listed address (.inr waits))
  cases placed.standing alive with
  | fresh opened epoll registered status _ io stream _ alone here only =>
    cases (load_fresh alive status io opened epoll registered).symm.trans loaded
    apply placed.settles_alive stage waits alive here opened io (fun kind => (stream kind).1) fun _ => alone waits
    · exact fun other _ => rfl
    · exact fun other there different => ⟨only other there different, .inl (only other there different)⟩
  | held opened epoll registered _ io stream _ status here only =>
    rcases status with ⟨added, active⟩ | ⟨deleted, due⟩
    · cases (load_held alive added io epoll registered).symm.trans loaded
      apply placed.settles_alive stage waits alive here opened io stream fun kind => absurd (.inr waits) (active kind)
      · exact fun other _ => rfl
      · exact fun other there different => ⟨only other there different, .inl (only other there different)⟩
    · have unused : address ∉ reactor.permitting := by
        intro inside
        obtain ⟨its, lives, -, added, -⟩ := placed.permits address inside
        cases alive.symm.trans lives
        cases added.symm.trans deleted
      have unlisted := (due.now stage).2
      cases (load_closed alive deleted io registered (placed.invalid _ opened) unused).symm.trans loaded
      refine placed.settles stage here ?_ ?_ (fun opened => ?_) ?_ ?_ ?_
      · exact fun other different =>
          ⟨Function.update_of_ne different .., Function.update_of_ne different .., Function.update_of_ne different ..⟩
      · refine fun other apart => Function.update_of_ne ?_ ..
        rintro rfl
        exact apart here
      · exact absurd ((Function.update_self ..).symm.trans opened) Bool.false_ne_true
      · refine .closed (Function.update_self ..) (Function.update_self ..) (Function.update_self ..) fun other there => ?_
        by_cases same : other = address
        · subst same
          exact Function.update_self ..
        · exact (Function.update_of_ne same ..).trans (only other there same)
      · intro other there again
        by_cases same : other = address
        · subst same
          exact absurd again (not_or_intro unlisted placed.once.1.not_mem_erase)
        · have lives := placed.listed other (again.imp_right List.mem_of_mem_erase)
          rw [only other there same] at lives
          cases lives
      · intro other inside there
        obtain ⟨its, lives, rest⟩ := placed.permits other inside
        by_cases same : other = address
        · subst same
          exact absurd inside unused
        · cases (only other there same).symm.trans lives
  | @replacing old before _ opened epoll registered left gone active settled status _ recv _ due here there only =>
    have valid := placed.invalid _ opened
    have different : old ≠ address := by
      rintro rfl
      cases left.symm.trans alive
      omega
    have unused : old ∉ reactor.permitting := by
      intro inside
      obtain ⟨its, lives, stream, -⟩ := placed.permits old inside
      cases left.symm.trans lives
      cases active.symm.trans stream
    have io : event.events.isIoEvents := by simp [EventMask.isIoEvents, recv]
    cases (load_handed alive status io epoll registered different left gone unused).symm.trans loaded
    apply placed.settles_alive stage waits alive here opened io (fun _ => recv) fun _ => (due.now stage).2
    · refine fun other apart => Function.update_of_ne ?_ ..
      rintro rfl
      exact apart there
    · intro other at_ apart
      by_cases the_old : other = old
      · subst the_old
        exact ⟨Function.update_self .., .inr ⟨settled, unused⟩⟩
      · have dead := only other at_ apart the_old
        exact ⟨(Function.update_of_ne the_old ..).trans dead, .inl dead⟩
  | replaced _ _ _ _ _ settled => exact absurd (.inr waits) settled

/-! ## All steps -/

/-- Senders, and the handlers of a stream, change nothing but what it asks epoll for. -/
theorem asks (placed : reactor.Placed home) (alive : reactor.heap address = some event) (kind : event.kind = .stream)
    (added : event.status = .add) (base : event.hasBase) (send : Bool) :
    ((reactor.set address { event with events := { event.events with send } }).write address).Placed home := by
  have stream : event.kind ≠ .active := by simp [kind]
  have recv := placed.stream_recv alive kind
  obtain ⟨registered, valid⟩ := placed.registered_of_based alive base stream
  apply placed.changes alive registered valid
  · simp [EventMask.isIoEvents, recv]
  · exact fun _ => recv
  · exact .inl ⟨added, stream⟩
  · exact fun _ => added

theorem setSend (placed : reactor.Placed home) (inside : reactor.stage = .handling address)
    (alive : reactor.heap address = some event) (kind : event.kind = .stream) (send : Bool) :
    (reactor.setSend address event send).Placed home := by
  obtain ⟨its, lives, -, -, -, base, started⟩ := placed.held_handling inside
  cases alive.symm.trans lives
  unfold ReactorEvents.setSend
  split
  · exact placed
  · rename_i differs
    have added : event.status = .add := by
      cases status : event.status with
      | none => exact absurd status started
      | add => rfl
      | del => exact absurd (.inl status) differs
    exact placed.asks alive kind added base send

theorem closes (placed : reactor.Placed home) (inside : reactor.stage = .handling address)
    (alive : reactor.heap address = some event) (unused : address ∉ reactor.permitting) :
    (if event.hasBase then (reactor.set address { event with status := .del }).write address else reactor).Placed home := by
  obtain ⟨its, lives, registered, valid, -, base, -⟩ := placed.held_handling inside
  cases alive.symm.trans lives
  have outside : reactor.stage ≠ .loading := by simp [inside]
  rw [if_pos base]
  apply placed.changes alive registered valid (placed.io_of_valid alive valid) (placed.stream_recv alive) (.inr ⟨rfl, outside⟩)
  exact fun sends => absurd sends unused

/-- `permit_write` queues an event that is open and does not send yet. -/
private theorem permitsWrite {next : ReactorEvents ν} (placed : reactor.Placed home) (opened : reactor.opening ≠ some address)
    (stepped : reactor.step (.permitWrite address) = some next) : next.Placed home := by
  simp only [ReactorEvents.step, if_neg opened] at stepped
  cases alive : reactor.heap address with
  | none =>
    rw [alive] at stepped
    cases stepped
  | some event =>
    simp only [alive, Option.ite_none_right_eq_some, Option.some.injEq] at stepped
    obtain ⟨⟨kind, -⟩, rfl⟩ := stepped
    split
    · exact placed
    · rename_i open_
      obtain ⟨added, base⟩ := placed.based_of_not_send alive kind (by simpa using fun sends => open_ (.inr sends))
        fun deleted => open_ (.inl deleted)
      refine placed.permitting fun other inside => ?_
      rcases List.mem_cons.1 inside with rfl | before
      · exact ⟨event, alive, kind, added, base⟩
      · exact placed.permits other before

private theorem addsEvent {next : ReactorEvents ν} (placed : reactor.Placed home)
    (stepped : reactor.step (.addEvent address) = some next) : next.Placed home := by
  simp only [ReactorEvents.step, Option.ite_none_right_eq_some] at stepped
  obtain ⟨inside, stepped⟩ := stepped
  obtain ⟨event, alive, kind, added, base⟩ := placed.permits address inside
  simp only [alive, if_pos base, Option.some.injEq] at stepped
  subst stepped
  exact (placed.permitting fun other left => placed.permits other (List.mem_of_mem_erase left)).asks alive kind added base true

private theorem connects {next : ReactorEvents ν} (placed : reactor.Placed home)
    (stepped : reactor.step (.connected address) = some next) : ∃ home, next.Placed home := by
  obtain ⟨⟨old, event⟩, running, stepped⟩ := Option.bind_eq_some_iff.1 stepped
  obtain ⟨inside, alive⟩ := handling_eq_some running
  simp only [Option.ite_none_right_eq_some, Option.some.injEq] at stepped
  obtain ⟨⟨kind, added, -, unused⟩, rfl⟩ := stepped
  exact ⟨_, (placed.hands inside alive kind added unused).opening none⟩

theorem step {next : ReactorEvents ν} {action : ReactorEventAction ν} (placed : reactor.Placed home)
    (undisturbed : reactor.Undisturbed action) (stepped : reactor.step action = some next) :
    ∃ home, next.Placed home := by
  cases action with
  | create address kind fd =>
    simp only [ReactorEvents.step, Option.ite_none_right_eq_some, Option.some.injEq] at stepped
    obtain ⟨⟨unused, -, valid, closed, kind_ne⟩, rfl⟩ := stepped
    refine ⟨_, placed.opens unused valid closed rfl rfl ?_ fun stream => absurd stream kind_ne⟩
    cases kind <;> rfl
  | permitWrite address => exact ⟨home, placed.permitsWrite undisturbed stepped⟩
  | addEvent address => exact ⟨home, placed.addsEvent stepped⟩
  | readChanges =>
    simp only [ReactorEvents.step, Option.ite_none_right_eq_some, Option.some.injEq] at stepped
    obtain ⟨start, rfl⟩ := stepped
    exact ⟨home, placed.readChanges start⟩
  | loadEvent address =>
    simp only [ReactorEvents.step, Option.ite_none_right_eq_some] at stepped
    obtain ⟨⟨stage, waits⟩, loaded⟩ := stepped
    exact ⟨home, placed.loads stage waits loaded⟩
  | epollWait fds =>
    simp only [ReactorEvents.step, Option.ite_none_right_eq_some, Option.some.injEq] at stepped
    obtain ⟨⟨stage, all, different, -⟩, rfl⟩ := stepped
    exact ⟨home, placed.epollWait stage all different⟩
  | dispatch => exact ⟨home, placed.dispatches stepped⟩
  | setOpen address taken =>
    obtain rfl : taken = false := undisturbed
    obtain ⟨⟨_, _⟩, -, stepped⟩ := Option.bind_eq_some_iff.1 stepped
    simp only [Option.ite_none_right_eq_some, Option.some.injEq] at stepped
    obtain ⟨-, rfl⟩ := stepped
    exact ⟨home, placed.opening _⟩
  | accept address fd =>
    obtain ⟨⟨listener, listening⟩, running, stepped⟩ := Option.bind_eq_some_iff.1 stepped
    obtain ⟨inside, -⟩ := handling_eq_some running
    simp only [Option.ite_none_right_eq_some, Option.some.injEq] at stepped
    obtain ⟨⟨-, -, unused, valid, closed⟩, rfl⟩ := stepped
    have moved : ({ reactor with stage := .dispatching, opening := none } : ReactorEvents ν).Placed home :=
      (placed.returns inside).opening none
    refine ⟨_, moved.opens unused valid closed rfl rfl rfl fun _ => ⟨rfl, rfl⟩⟩
  | connected address => exact placed.connects stepped
  | permitSend =>
    obtain ⟨⟨address, event⟩, running, stepped⟩ := Option.bind_eq_some_iff.1 stepped
    obtain ⟨inside, alive⟩ := handling_eq_some running
    simp only [Option.ite_none_right_eq_some, Option.some.injEq] at stepped
    obtain ⟨kind, rfl⟩ := stepped
    exact ⟨home, placed.setSend inside alive kind true⟩
  | forbidSend =>
    obtain ⟨⟨address, event⟩, running, stepped⟩ := Option.bind_eq_some_iff.1 stepped
    obtain ⟨inside, alive⟩ := handling_eq_some running
    simp only [Option.ite_none_right_eq_some, Option.some.injEq] at stepped
    obtain ⟨⟨kind, -⟩, rfl⟩ := stepped
    exact ⟨home, placed.setSend inside alive kind false⟩
  | delEvent =>
    obtain ⟨⟨address, event⟩, running, stepped⟩ := Option.bind_eq_some_iff.1 stepped
    obtain ⟨inside, alive⟩ := handling_eq_some running
    simp only [Option.ite_none_right_eq_some, Option.some.injEq] at stepped
    obtain ⟨-, rfl⟩ := stepped
    exact ⟨home, placed.closes inside alive fun sends => undisturbed address sends inside⟩
  | handled =>
    simp only [ReactorEvents.step] at stepped
    split at stepped
    next inside opening =>
      cases stepped
      exact ⟨home, placed.returns inside⟩
    · cases stepped

end Placed

instance Undisturbed.decidable [DecidableEq ν] (reactor : ReactorEvents ν) : ∀ action, Decidable (reactor.Undisturbed action)
  | .delEvent => inferInstanceAs (Decidable (∀ address ∈ reactor.permitting, reactor.stage ≠ .handling address))
  | .permitWrite address => inferInstanceAs (Decidable (reactor.opening ≠ some address))
  | .setOpen _ taken => inferInstanceAs (Decidable (taken = false))
  | .create .. | .addEvent _ | .readChanges | .loadEvent _ | .epollWait _ | .dispatch | .accept .. |
    .connected _ | .permitSend | .forbidSend | .handled => isTrue trivial

end ReactorEvents

namespace Proofs
open ReactorEvents

/-- A connection is made over the socket of event 2, and one that was accepted is closed. -/
def connectAndClose : List (ReactorEventAction Nat) :=
  [.create 0 .control 3, .create 1 .passive 4, .create 2 .active 5, .readChanges, .loadEvent 1, .loadEvent 2, .loadEvent 0,
    .epollWait [5, 4], .dispatch, .setOpen 4 false, .connected 4, .dispatch, .setOpen 3 false, .accept 3 6, .dispatch,
    .readChanges, .loadEvent 4, .loadEvent 3, .epollWait [6], .dispatch, .forbidSend, .handled, .permitWrite 3, .addEvent 3, .dispatch, .readChanges, .loadEvent 3,
    .epollWait [6], .dispatch, .delEvent, .handled, .dispatch, .readChanges, .loadEvent 3]

/-- The sender of 1 has passed the test of `permit_write` when the event is closed, and writes it to the list
after the loop has read it there. The next passage comes to an event that is dead. -/
example :
    (([.create 0 .passive 3, .readChanges, .loadEvent 0, .epollWait [3], .dispatch, .setOpen 1 false, .accept 1 4, .dispatch, .readChanges,
      .loadEvent 1, .epollWait [4], .dispatch, .forbidSend, .handled, .permitWrite 1, .dispatch, .readChanges, .loadEvent 1,
      .epollWait [4], .dispatch, .delEvent, .handled, .dispatch, .readChanges, .addEvent 1, .loadEvent 1, .epollWait [],
      .dispatch, .readChanges, .loadEvent 1] : List (ReactorEventAction Nat)).foldlM ReactorEvents.step
        ReactorEvents.initial).map (·.faulted) = some true := by decide +kernel

/-- A sender finds the session before the event has its `_events`, and its `_base` is null. -/
example :
    (([.create 0 .passive 3, .readChanges, .loadEvent 0, .epollWait [3], .dispatch, .setOpen 1 false, .permitWrite 1] :
      List (ReactorEventAction Nat)).foldlM ReactorEvents.step ReactorEvents.initial).map (·.faulted) = some true := by
  decide +kernel

/-- The second session of an `httpsession_manager` has the id of the first. -/
example :
    (([.create 0 .passive 3, .readChanges, .loadEvent 0, .epollWait [3], .dispatch, .setOpen 1 true] :
      List (ReactorEventAction Nat)).foldlM ReactorEvents.step ReactorEvents.initial).map (·.faulted) = some true := by
  decide +kernel

end Proofs
end Cassobee
