import Cassobee.ReactorTimers

/-! What `handle_timer_event` should do with the queued timers, and when it does it. The test that ends
the loop is the wrong way round and comes after the entry has been erased, so that every queue with a
timer in it is handled wrongly. -/

namespace Cassobee

namespace ReactorTimers
variable (nowtime : Int) (handler : TimerEvent → Bool)

def expired (entries : List (Int × TimerEvent)) : List TimerEvent :=
  (entries.filter fun entry => entry.1 ≤ nowtime).map Prod.snd

def due (entries : List (Int × TimerEvent)) : List TimerEvent :=
  (expired nowtime entries).filter fun tm => tm.status ≠ .del

/-- The expired timers run in the order of their expiry, those that ask for it are added again, those
that are marked are deleted, and the others stay. -/
structure TimersHandled (before after : ReactorTimers) : Prop where
  ran : after.ran = before.ran ++ due nowtime before.timerEvents.val
  added : after.changelist = before.changelist ++
    (due nowtime before.timerEvents.val).filterMap fun tm =>
      if (tm.handleEvent (handler tm)).1 then some (tm.handleEvent (handler tm)).2 else none
  deleted : after.deleted = before.deleted ++ (expired nowtime before.timerEvents.val).filter fun tm => tm.status = .del
  waiting : after.timerEvents.val = before.timerEvents.val.filter fun entry => nowtime < entry.1

end ReactorTimers

namespace Proofs
open ReactorTimers

variable {nowtime : Int} {handler : TimerEvent → Bool}

theorem expired_of_later {entries : List (Int × TimerEvent)} (later : ∀ entry ∈ entries, nowtime < entry.1) :
    expired nowtime entries = [] := by
  rw [expired, List.map_eq_nil_iff, List.filter_eq_nil_iff]
  intro entry member
  have := later entry member
  simp only [decide_eq_true_eq]
  omega

/-- An expired timer runs or is deleted. -/
theorem later_of_unhandled {entries : List (Int × TimerEvent)} (idle : due nowtime entries = [])
    (unmarked : (expired nowtime entries).filter (fun tm => tm.status = .del) = []) : ∀ entry ∈ entries, nowtime < entry.1 := by
  intro entry member
  by_contra early
  have past : entry.2 ∈ expired nowtime entries := by
    apply List.mem_map_of_mem
    rw [List.mem_filter]
    exact ⟨member, by simpa using early⟩
  by_cases marked : entry.2.status = .del
  · exact List.filter_eq_nil_iff.1 unmarked entry.2 past (by simpa using marked)
  · exact List.filter_eq_nil_iff.1 idle entry.2 past (by simpa using marked)

theorem handled_nothing {reactor : ReactorTimers} (later : ∀ entry ∈ reactor.timerEvents.val, nowtime < entry.1) :
    TimersHandled nowtime handler reactor reactor := by
  have none := expired_of_later later
  refine ⟨?_, ?_, ?_, ?_⟩
  · simp [due, none]
  · simp [due, none]
  · simp [none]
  · symm
    rw [List.filter_eq_self]
    intro entry member
    simpa using later entry member

/-- The queue behind the first entry is not later than it. -/
theorem later_of_first {entry : Int × TimerEvent} {entries : List (Int × TimerEvent)}
    (sorted : Container.Monotone timeOrder Prod.fst (entry :: entries)) (future : nowtime < entry.1) :
    ∀ other ∈ entry :: entries, nowtime < other.1 := by
  intro other member
  rcases List.mem_cons.1 member with rfl | behind
  · exact future
  · have order := (List.pairwise_cons.1 sorted).1 other behind
    simp only [timeOrder, decide_eq_false_iff_not] at order
    omega

theorem not_handled_of_queued {reactor : ReactorTimers} (unthreaded : reactor.useTimerThread = false)
    (queued : reactor.timerEvents.val ≠ []) : ¬ TimersHandled nowtime handler reactor (reactor.handleTimerEvent nowtime handler) := by
  intro handled
  obtain ⟨useTimerThread, ⟨entries, sorted⟩, changelist, ran, deleted⟩ := reactor
  obtain rfl : useTimerThread = false := unthreaded
  cases entries with
  | nil => exact queued rfl
  | cons entry entries =>
    by_cases early : entry.1 ≤ nowtime
    · -- the loop ends at once, and the expired entry is gone
      have passage : handleEntries nowtime handler (entry :: entries) = ⟨entries, [], [], []⟩ := by
        rw [handleEntries, if_pos early]
      have idle : due nowtime (entry :: entries) = [] := by
        have calls := handled.ran
        simp only [handleTimerEvent, passage, Bool.false_eq_true, if_false, List.append_nil] at calls
        exact List.append_cancel_left (calls.symm.trans (List.append_nil _).symm)
      have unmarked : (expired nowtime (entry :: entries)).filter (fun tm => tm.status = .del) = [] := by
        have gone := handled.deleted
        simp only [handleTimerEvent, passage, Bool.false_eq_true, if_false, List.append_nil] at gone
        exact List.append_cancel_left (gone.symm.trans (List.append_nil _).symm)
      have future := later_of_unhandled idle unmarked entry (by simp)
      omega
    · -- the entry has been erased although it is not due
      have later := later_of_first sorted (Int.not_le.1 early)
      have all : (entry :: entries).filter (fun entry => nowtime < entry.1) = entry :: entries := by
        rw [List.filter_eq_self]
        intro other member
        simpa using later other member
      have waiting := handled.waiting
      rw [all] at waiting
      have shorter : (handleEntries nowtime handler (entry :: entries)).entries <:+ entries := by
        rw [handleEntries, if_neg early]
        dsimp only
        split <;> exact handleEntries_suffix ..
      have length := shorter.length_le
      rw [show (handleEntries nowtime handler (entry :: entries)).entries = entry :: entries from waiting] at length
      exact Nat.not_succ_le_self _ length

/-- The timers are handled right exactly when there are none, or when they are left to a timer thread
and none of them is due. -/
theorem timers_handled_iff (reactor : ReactorTimers) (nowtime : Int) (handler : TimerEvent → Bool) :
    TimersHandled nowtime handler reactor (reactor.handleTimerEvent nowtime handler) ↔
      reactor.timerEvents.val = [] ∨
        reactor.useTimerThread = true ∧ ∀ entry ∈ reactor.timerEvents.val, nowtime < entry.1 := by
  cases threaded : reactor.useTimerThread with
  | true =>
    have same : reactor.handleTimerEvent nowtime handler = reactor := by simp [handleTimerEvent, threaded]
    rw [same]
    constructor
    · intro handled
      have idle := List.append_cancel_left (handled.ran.symm.trans (List.append_nil _).symm)
      have unmarked := List.append_cancel_left (handled.deleted.symm.trans (List.append_nil _).symm)
      exact .inr ⟨rfl, later_of_unhandled idle unmarked⟩
    · rintro (empty | ⟨-, later⟩)
      · exact handled_nothing (by simp [empty])
      · exact handled_nothing later
  | false =>
    constructor
    · intro handled
      exact .inl (Classical.byContradiction fun queued => not_handled_of_queued threaded queued handled)
    · rintro (empty | ⟨wrong, -⟩)
      · have same : reactor.handleTimerEvent nowtime handler = reactor := by
          obtain ⟨useTimerThread, ⟨entries, sorted⟩, changelist, ran, deleted⟩ := reactor
          obtain rfl : entries = [] := empty
          simp [handleTimerEvent, handleEntries]
        rw [same]
        exact handled_nothing (by simp [empty])
      · cases wrong

/-- One timer that is due at 5, at the time 10. -/
def oneDue : ReactorTimers :=
  ⟨false, ⟨[(5, ⟨1, .add, true, 5, 1⟩)], List.pairwise_singleton ..⟩, [], [], []⟩

theorem oneDue_dropped : ¬ TimersHandled 10 (fun _ => true) oneDue (oneDue.handleTimerEvent 10 fun _ => true) := by
  intro handled
  have calls := congrArg List.length handled.ran
  exact absurd calls (by decide)

end Proofs
end Cassobee
