import Cassobee.Containers

/-! The timers of `io/reactor.cpp` when no timer thread is used: a multimap from expiry times to
events. A handler's result is all that the loop sees of it, and an event that is added goes to
`_changelist` until `load_event` comes to it. -/

namespace Cassobee

namespace ReactorTimers

inductive EventStatus where
  | none | add | del
  deriving DecidableEq, Repr

/-- `address` stands for the pointer. -/
structure TimerEvent where
  address : Nat
  status : EventStatus
  delay : Bool
  timeout : Int
  repeats : Int
  deriving DecidableEq, Repr

/-- `timer_event::handle_event`, with what `_handler` returns. -/
def TimerEvent.handleEvent (tm : TimerEvent) (handled : Bool) : Bool × TimerEvent :=
  if handled then
    let tm := if tm.repeats > 0 then { tm with repeats := tm.repeats - 1 } else tm
    (tm.repeats ≠ 0, tm)
  else
    (false, tm)

/-- The order of a `std::multimap<TIMETYPE, event*>`. -/
def timeOrder : Container.Compare Int where
  lt a b := a < b
  irrefl a := by simp
  trans a b c less more := by
    simp only [decide_eq_true_eq] at less more ⊢
    exact Int.lt_trans less more

abbrev TimerEventMap := { entries : List (Int × TimerEvent) // Container.Monotone timeOrder Prod.fst entries }

end ReactorTimers

open ReactorTimers in
/-- `ran` and `deleted` record the handlers that were called and the events that were deleted. -/
structure ReactorTimers where
  useTimerThread : Bool
  timerEvents : TimerEventMap
  changelist : List TimerEvent
  ran : List TimerEvent
  deleted : List TimerEvent

namespace ReactorTimers

/-- `add_event_inner` of a timer. -/
def addEventInner (reactor : ReactorTimers) (nowtime : Int) (tm : TimerEvent) : ReactorTimers :=
  let expiretime := if tm.delay then nowtime + tm.timeout else nowtime
  { reactor with timerEvents :=
      ⟨Container.insertMulti timeOrder Prod.fst (expiretime, { tm with delay := true }) reactor.timerEvents.val,
        Container.insertMulti_monotone timeOrder Prod.fst _ reactor.timerEvents.property⟩ }

/-- What the loop over the entries leaves in the map, and what it does with the events. -/
structure Passage where
  entries : List (Int × TimerEvent)
  changelist : List TimerEvent
  ran : List TimerEvent
  deleted : List TimerEvent

/-- The entry is erased before the test. -/
def handleEntries (nowtime : Int) (handler : TimerEvent → Bool) : List (Int × TimerEvent) → Passage
  | [] => ⟨[], [], [], []⟩
  | (expiretime, tm) :: entries =>
    if expiretime ≤ nowtime then
      ⟨entries, [], [], []⟩
    else
      let next := handleEntries nowtime handler entries
      if tm.status = .del then
        { next with deleted := tm :: next.deleted }
      else
        let (again, tm') := tm.handleEvent (handler tm)
        { next with
          ran := tm :: next.ran
          changelist := if again then tm' :: next.changelist else next.changelist }

theorem handleEntries_suffix (nowtime : Int) (handler : TimerEvent → Bool) (entries : List (Int × TimerEvent)) :
    (handleEntries nowtime handler entries).entries <:+ entries := by
  induction entries with
  | nil => exact List.suffix_rfl
  | cons entry entries ih =>
    rw [handleEntries]
    split
    · exact List.suffix_cons ..
    · dsimp only
      split
      · exact ih.trans (List.suffix_cons ..)
      · exact ih.trans (List.suffix_cons ..)

def handleTimerEvent (reactor : ReactorTimers) (nowtime : Int) (handler : TimerEvent → Bool) : ReactorTimers :=
  if reactor.useTimerThread then
    reactor
  else
    let passage := handleEntries nowtime handler reactor.timerEvents.val
    { reactor with
      timerEvents := ⟨passage.entries, reactor.timerEvents.property.sublist (handleEntries_suffix ..).sublist⟩
      changelist := reactor.changelist ++ passage.changelist
      ran := reactor.ran ++ passage.ran
      deleted := reactor.deleted ++ passage.deleted }

end ReactorTimers
end Cassobee
