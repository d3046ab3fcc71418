import Cassobee.Proofs.ReactorEvents
import Cassobee.ServerManager

/-! What a step of the reactor leaves of an event, and of a handler that is making a stream. -/

namespace Cassobee
variable {ν : Type}

namespace ReactorEvents
variable {reactor next : ReactorEvents ν} {action : ReactorEventAction ν} {address : ν} {event : IoEvent}

/-! ## Events that are not deleted -/

/-- The event stays, with its kind. -/
def Keeps (reactor next : ReactorEvents ν) (address : ν) : Prop :=
  ∀ event, reactor.heap address = some event → ∃ after, next.heap address = some after ∧ after.kind = event.kind

theorem dispatch_frame (stepped : reactor.dispatch = some next) :
    reactor.stage = .dispatching ∧ next.opening = reactor.opening ∧ next.heap = reactor.heap := by
  unfold ReactorEvents.dispatch at stepped
  split at stepped
  next here _ =>
    cases stepped
    exact ⟨here, rfl, rfl⟩
  next here _ =>
    refine ⟨here, ?_⟩
    split at stepped
    · cases stepped
      exact ⟨rfl, rfl⟩
    · split at stepped
      · cases stepped
        exact ⟨rfl, rfl⟩
      · split at stepped
        · split at stepped <;> cases stepped <;> exact ⟨rfl, rfl⟩
        · cases stepped
          exact ⟨rfl, rfl⟩
  · cases stepped

theorem Keeps.of_heap (same : next.heap = reactor.heap) : reactor.Keeps next address :=
  fun event alive => ⟨event, (congrFun same address).trans alive, rfl⟩

variable [DecidableEq ν]

theorem heap_free {other : ν} (different : address ≠ other) : (reactor.free other).heap address = reactor.heap address := by
  unfold ReactorEvents.free
  split
  · rfl
  · split <;> exact Function.update_of_ne different ..

namespace Keeps

theorem set {other : ν} {old changed : IoEvent} (keeps : reactor.Keeps next address) (alive : next.heap other = some old)
    (same : changed.kind = old.kind) : reactor.Keeps (next.set other changed) address := by
  intro event before
  obtain ⟨after, there, kind⟩ := keeps event before
  by_cases here : address = other
  · subst here
    cases alive.symm.trans there
    exact ⟨changed, Function.update_self .., same.trans kind⟩
  · exact ⟨after, (Function.update_of_ne here ..).trans there, kind⟩

theorem set_unused {other : ν} {new : IoEvent} (keeps : reactor.Keeps next address) (unused : next.heap other = none) :
    reactor.Keeps (next.set other new) address := by
  intro event before
  obtain ⟨after, there, kind⟩ := keeps event before
  have here : address ≠ other := by
    intro same
    subst same
    cases unused.symm.trans there
  exact ⟨after, (Function.update_of_ne here ..).trans there, kind⟩

theorem free {other : ν} (keeps : reactor.Keeps next address) (different : address ≠ other) :
    reactor.Keeps (next.free other) address := by
  intro event before
  rw [heap_free different]
  exact keeps event before

theorem epollAdd {other : ν} (keeps : reactor.Keeps next address) (alive : next.heap other = some event) :
    reactor.Keeps (next.epollAdd other event) address := by
  unfold ReactorEvents.epollAdd
  split <;> try split
  · exact keeps.set alive rfl
  · exact keeps.set alive rfl
  · exact keeps.set alive rfl
  · exact keeps
  · exact keeps

theorem setSend {other : ν} {send : Bool} (alive : reactor.heap other = some event) :
    reactor.Keeps (reactor.setSend other event send) address := by
  have keeps : reactor.Keeps reactor address := of_heap rfl
  unfold ReactorEvents.setSend
  split
  · exact keeps
  · split
    · exact set keeps alive rfl
    · exact keeps

theorem load {other : ν} (loaded : reactor.load other = some next)
    (undeleted : reactor.deleted (.loadEvent other) ≠ some address) : reactor.Keeps next address := by
  unfold ReactorEvents.load at loaded
  split at loaded
  · cases loaded
    exact of_heap rfl
  next event alive =>
    simp only [Option.ite_none_left_eq_some, Option.some.injEq] at loaded
    obtain ⟨-, rfl⟩ := loaded
    have keeps : reactor.Keeps { reactor with loading := reactor.loading.erase other } address := of_heap rfl
    simp only [ReactorEvents.deleted, alive, Option.bind_eq_bind, Option.bind_some, ReactorEvents.deletes] at undeleted
    split
    next closed =>
      unfold ReactorEvents.delEventInner
      split
      next io =>
        split
        next target registered =>
          apply keeps.free
          intro same
          subst same
          exact undeleted (by rw [if_pos io, if_pos closed]; exact registered)
        · exact keeps
      · exact keeps
    next settled =>
      unfold ReactorEvents.addEventInner
      split
      next io =>
        split
        next target substituted =>
          obtain ⟨-, apart⟩ := Option.filter_eq_some_iff.1 substituted
          refine epollAdd (keeps.free ?_) ((heap_free (of_decide_eq_true apart).symm).trans alive)
          intro same
          subst same
          exact undeleted (by rw [if_pos io, if_neg settled]; exact substituted)
        · exact epollAdd keeps alive
      · exact keeps

end Keeps

theorem kept_of_step (stepped : reactor.step action = some next) (undeleted : reactor.deleted action ≠ some address) :
    reactor.Keeps next address := by
  have keeps : reactor.Keeps reactor address := .of_heap rfl
  cases action with
  | create other kind fd =>
    simp only [ReactorEvents.step, Option.ite_none_right_eq_some, Option.some.injEq] at stepped
    obtain ⟨⟨unused, -⟩, rfl⟩ := stepped
    exact Keeps.set_unused keeps unused
  | permitWrite other =>
    simp only [ReactorEvents.step] at stepped
    split at stepped
    · cases stepped
      exact keeps
    · split at stepped
      · cases stepped
      · simp only [Option.ite_none_right_eq_some, Option.some.injEq] at stepped
        obtain ⟨-, rfl⟩ := stepped
        split <;> exact keeps
  | addEvent other =>
    simp only [ReactorEvents.step, Option.ite_none_right_eq_some] at stepped
    obtain ⟨-, stepped⟩ := stepped
    split at stepped
    · cases stepped
      exact keeps
    next event alive =>
      cases stepped
      split
      · exact Keeps.set keeps alive rfl
      · exact keeps
  | readChanges | epollWait =>
    simp only [ReactorEvents.step, Option.ite_none_right_eq_some, Option.some.injEq] at stepped
    obtain ⟨-, rfl⟩ := stepped
    exact keeps
  | loadEvent other =>
    simp only [ReactorEvents.step, Option.ite_none_right_eq_some] at stepped
    exact .load stepped.2 undeleted
  | dispatch => exact .of_heap (dispatch_frame stepped).2.2
  | setOpen other taken =>
    obtain ⟨⟨_, _⟩, -, stepped⟩ := Option.bind_eq_some_iff.1 stepped
    simp only [Option.ite_none_right_eq_some, Option.some.injEq] at stepped
    obtain ⟨-, rfl⟩ := stepped
    split <;> exact keeps
  | accept other fd =>
    obtain ⟨⟨_, _⟩, -, stepped⟩ := Option.bind_eq_some_iff.1 stepped
    simp only [Option.ite_none_right_eq_some, Option.some.injEq] at stepped
    obtain ⟨⟨-, -, unused, -⟩, rfl⟩ := stepped
    exact Keeps.set_unused keeps unused
  | connected other =>
    obtain ⟨⟨old, event⟩, running, stepped⟩ := Option.bind_eq_some_iff.1 stepped
    obtain ⟨-, alive⟩ := Placed.handling_eq_some running
    simp only [Option.ite_none_right_eq_some, Option.some.injEq] at stepped
    obtain ⟨⟨-, -, -, unused⟩, rfl⟩ := stepped
    have different : other ≠ old := by
      intro same
      subst same
      cases unused.symm.trans alive
    exact Keeps.set_unused (Keeps.set keeps alive rfl) ((Function.update_of_ne different ..).trans unused)
  | permitSend | forbidSend =>
    obtain ⟨⟨other, event⟩, running, stepped⟩ := Option.bind_eq_some_iff.1 stepped
    obtain ⟨-, alive⟩ := Placed.handling_eq_some running
    simp only [Option.ite_none_right_eq_some, Option.some.injEq] at stepped
    obtain ⟨-, rfl⟩ := stepped
    exact .setSend alive
  | delEvent =>
    obtain ⟨⟨other, event⟩, running, stepped⟩ := Option.bind_eq_some_iff.1 stepped
    obtain ⟨-, alive⟩ := Placed.handling_eq_some running
    simp only [Option.ite_none_right_eq_some, Option.some.injEq] at stepped
    obtain ⟨-, rfl⟩ := stepped
    split
    · exact Keeps.set keeps alive rfl
    · exact keeps
  | handled =>
    simp only [ReactorEvents.step] at stepped
    split at stepped
    · cases stepped
      exact keeps
    · cases stepped

/-! ## The session that a handler opens -/

/-- What a step does to the place of the loop, and to the stream that is being made. -/
inductive Course (reactor next : ReactorEvents ν) : ReactorEventAction ν → Prop where
  | stays {action : ReactorEventAction ν} (stage : next.stage = reactor.stage) (opening : next.opening = reactor.opening) :
    Course reactor next action
  | elsewhere {action : ReactorEventAction ν} (outside : ∀ address, reactor.stage ≠ .handling address)
      (opening : next.opening = reactor.opening) : Course reactor next action
  | opens {new address : ν} {event : IoEvent} (handling : reactor.handling = some (address, event))
      (closed : reactor.opening = none) (stage : next.stage = reactor.stage) (opening : next.opening = some new) :
      Course reactor next (.setOpen new false)
  | accepts {new address : ν} {fd : Int} {event : IoEvent} (handling : reactor.handling = some (address, event))
      (kind : event.kind = .passive) (stage : next.stage = .dispatching) (opening : next.opening = none) :
      Course reactor next (.accept new fd)
  | connects {new address : ν} {event : IoEvent} (handling : reactor.handling = some (address, event))
      (stage : next.stage = .dispatching) (opening : next.opening = none) : Course reactor next (.connected new)
  | returns (opening : reactor.opening = none) (stage : next.stage = .dispatching) (after : next.opening = none) :
    Course reactor next .handled

theorem free_course (reactor : ReactorEvents ν) (address : ν) :
    (reactor.free address).stage = reactor.stage ∧ (reactor.free address).opening = reactor.opening := by
  unfold ReactorEvents.free
  split
  · exact ⟨rfl, rfl⟩
  · split <;> exact ⟨rfl, rfl⟩

theorem epollAdd_course (reactor : ReactorEvents ν) (address : ν) (event : IoEvent) :
    (reactor.epollAdd address event).stage = reactor.stage ∧ (reactor.epollAdd address event).opening = reactor.opening := by
  unfold ReactorEvents.epollAdd
  split <;> try split
  all_goals exact ⟨rfl, rfl⟩

theorem setSend_course (reactor : ReactorEvents ν) (address : ν) (event : IoEvent) (send : Bool) :
    (reactor.setSend address event send).stage = reactor.stage ∧
      (reactor.setSend address event send).opening = reactor.opening := by
  unfold ReactorEvents.setSend
  split
  · exact ⟨rfl, rfl⟩
  · split <;> exact ⟨rfl, rfl⟩

theorem load_course (loaded : reactor.load address = some next) :
    next.stage = reactor.stage ∧ next.opening = reactor.opening := by
  unfold ReactorEvents.load at loaded
  split at loaded
  · cases loaded
    exact ⟨rfl, rfl⟩
  next event alive =>
    simp only [Option.ite_none_left_eq_some, Option.some.injEq] at loaded
    obtain ⟨-, rfl⟩ := loaded
    split
    · unfold ReactorEvents.delEventInner
      split
      · split
        · exact free_course _ _
        · exact ⟨rfl, rfl⟩
      · exact ⟨rfl, rfl⟩
    · unfold ReactorEvents.addEventInner
      split
      · split
        next target substituted =>
          obtain ⟨stage, opening⟩ := epollAdd_course (ReactorEvents.register _ address event) address event
          obtain ⟨before, also⟩ := free_course { reactor with loading := reactor.loading.erase address } target
          exact ⟨stage.trans before, opening.trans also⟩
        · exact epollAdd_course _ _ _
      · exact ⟨rfl, rfl⟩

theorem setOpen_eq_some {new : ν} {taken : Bool} (stepped : reactor.step (.setOpen new taken) = some next) :
    ∃ address event, reactor.handling = some (address, event) ∧ (event.kind = .passive ∨ event.kind = .active) ∧
      reactor.opening = none ∧ next = if taken then reactor.fault else { reactor with opening := some new } := by
  obtain ⟨⟨address, event⟩, running, stepped⟩ := Option.bind_eq_some_iff.1 stepped
  simp only [Option.ite_none_right_eq_some, Option.some.injEq] at stepped
  obtain ⟨⟨kind, -, closed⟩, rfl⟩ := stepped
  exact ⟨address, event, running, kind.imp_right And.left, closed, rfl⟩

theorem connected_eq_some {new : ν} (stepped : reactor.step (.connected new) = some next) :
    ∃ address event stream, reactor.handling = some (address, event) ∧ reactor.opening = some new ∧
      next.stage = .dispatching ∧ next.opening = none ∧ next.heap new = some stream ∧ stream.kind = .stream := by
  obtain ⟨⟨address, event⟩, running, stepped⟩ := Option.bind_eq_some_iff.1 stepped
  simp only [Option.ite_none_right_eq_some, Option.some.injEq] at stepped
  obtain ⟨⟨-, -, opening, -⟩, rfl⟩ := stepped
  exact ⟨address, event, _, running, opening, rfl, rfl, Function.update_self .., rfl⟩

theorem course_of_step (stepped : reactor.step action = some next) : Course reactor next action := by
  cases action with
  | create other kind fd =>
    simp only [ReactorEvents.step, Option.ite_none_right_eq_some, Option.some.injEq] at stepped
    obtain ⟨-, rfl⟩ := stepped
    exact .stays rfl rfl
  | permitWrite other =>
    simp only [ReactorEvents.step] at stepped
    split at stepped
    · cases stepped
      exact .stays rfl rfl
    · split at stepped
      · cases stepped
      · simp only [Option.ite_none_right_eq_some, Option.some.injEq] at stepped
        obtain ⟨-, rfl⟩ := stepped
        split <;> exact .stays rfl rfl
  | addEvent other =>
    simp only [ReactorEvents.step, Option.ite_none_right_eq_some] at stepped
    obtain ⟨-, stepped⟩ := stepped
    split at stepped <;> cases stepped
    · exact .stays rfl rfl
    · split <;> exact .stays rfl rfl
  | readChanges =>
    simp only [ReactorEvents.step, Option.ite_none_right_eq_some, Option.some.injEq] at stepped
    obtain ⟨start, rfl⟩ := stepped
    exact .elsewhere (by simp [start]) rfl
  | epollWait fds =>
    simp only [ReactorEvents.step, Option.ite_none_right_eq_some, Option.some.injEq] at stepped
    obtain ⟨⟨loading, -⟩, rfl⟩ := stepped
    exact .elsewhere (by simp [loading]) rfl
  | loadEvent other =>
    simp only [ReactorEvents.step, Option.ite_none_right_eq_some] at stepped
    obtain ⟨stage, opening⟩ := load_course stepped.2
    exact .stays stage opening
  | dispatch =>
    obtain ⟨stage, opening, -⟩ := dispatch_frame stepped
    exact .elsewhere (by simp [stage]) opening
  | setOpen other taken =>
    obtain ⟨address, event, running, kind, closed, rfl⟩ := setOpen_eq_some stepped
    cases taken with
    | false => exact .opens running closed rfl rfl
    | true => exact .stays rfl rfl
  | accept other fd =>
    obtain ⟨⟨_, _⟩, running, stepped⟩ := Option.bind_eq_some_iff.1 stepped
    simp only [Option.ite_none_right_eq_some, Option.some.injEq] at stepped
    obtain ⟨⟨kind, -⟩, rfl⟩ := stepped
    exact .accepts running kind rfl rfl
  | connected other =>
    obtain ⟨old, event, stream, running, opening, stage, after, -⟩ := connected_eq_some stepped
    exact .connects running stage after
  | permitSend | forbidSend =>
    obtain ⟨⟨other, event⟩, -, stepped⟩ := Option.bind_eq_some_iff.1 stepped
    simp only [Option.ite_none_right_eq_some, Option.some.injEq] at stepped
    obtain ⟨-, rfl⟩ := stepped
    obtain ⟨stage, opening⟩ := setSend_course reactor other event _
    exact .stays stage opening
  | delEvent =>
    obtain ⟨⟨other, event⟩, -, stepped⟩ := Option.bind_eq_some_iff.1 stepped
    simp only [Option.ite_none_right_eq_some, Option.some.injEq] at stepped
    obtain ⟨-, rfl⟩ := stepped
    split <;> exact .stays rfl rfl
  | handled =>
    simp only [ReactorEvents.step] at stepped
    split at stepped
    next opening =>
      cases stepped
      exact .returns opening rfl opening
    · cases stepped

/-- A stream is made inside a handler only. -/
def OpensInside (reactor : ReactorEvents ν) : Prop := reactor.opening.isSome → ∃ handled, reactor.handling = some handled

omit [DecidableEq ν] in
theorem OpensInside.opening_eq_none (inside : reactor.OpensInside) (outside : reactor.handling = none) :
    reactor.opening = none := by
  cases making : reactor.opening with
  | none => rfl
  | some new =>
    obtain ⟨_, handling⟩ := inside (by rw [making]; rfl)
    cases outside.symm.trans handling

theorem stage_of_deleted (stepped : reactor.step action = some next) (deleted : reactor.deleted action = some address) :
    reactor.stage = .loading := by
  cases action with
  | loadEvent other =>
    simp only [ReactorEvents.step, Option.ite_none_right_eq_some] at stepped
    exact stepped.1.1
  | _ => cases deleted

theorem OpensInside.step (inside : reactor.OpensInside) (stepped : reactor.step action = some next) : next.OpensInside := by
  have alive {other : ν} {here : IoEvent} (handling : reactor.handling = some (other, here))
      (stage : next.stage = reactor.stage) : ∃ handled, next.handling = some handled := by
    obtain ⟨before, its⟩ := Placed.handling_eq_some handling
    have spared : reactor.deleted action ≠ some other := by
      intro deleted
      cases before.symm.trans (stage_of_deleted stepped deleted)
    obtain ⟨after, still, -⟩ := kept_of_step stepped spared here its
    refine ⟨(other, after), ?_⟩
    simp only [ReactorEvents.handling, stage, before, still]
    rfl
  intro making
  cases course_of_step stepped with
  | stays stage opening =>
    rw [opening] at making
    obtain ⟨_, handling⟩ := inside making
    exact alive handling stage
  | elsewhere outside opening =>
    rw [opening] at making
    obtain ⟨_, handling⟩ := inside making
    exact (outside _ (Placed.handling_eq_some handling).1).elim
  | opens handling _ stage => exact alive handling stage
  | accepts _ _ _ none | connects _ _ none | returns _ _ none =>
    rw [none] at making
    cases making

end ReactorEvents
end Cassobee
