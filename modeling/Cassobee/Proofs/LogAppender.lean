import Cassobee.LogAppender
import Cassobee.Support.Run

/-! The bytes of the log at the end: what the writer has not drained when it sees that it is to stop is lost,
and what comes in before its last drain is one too many. -/

namespace Cassobee.Proofs
open Support AsyncAppender

/-- When `stop()` has returned, the file has what was stored before it. -/
def FileComplete (appender : AsyncAppender) : Prop := appender.phase = .returned → appender.file = appender.owed

def NotReturned (appender : AsyncAppender) : Prop := appender.phase ≠ .returned

/-- The writer has seen the appender run and will not look again before it has drained. -/
def WillDrain (appender : AsyncAppender) : Prop := appender.writer = .locking ∨ appender.writer = .waiting

/-- While `stop()` waits for a writer that is still to drain, no byte is stored. -/
def StoresInTime (appender : AsyncAppender) (content : List UInt8) : Prop :=
  appender.running = false → WillDrain appender → appender.accepted content = []

/-- `stop()` comes when the writer is still to drain or nothing is there to be drained. -/
def StopsInTime (appender : AsyncAppender) : AppenderAction → Prop
  | .stop => appender.running = true → ¬ WillDrain appender → appender.buf.items = []
  | .log content => StoresInTime appender content
  | .logEvent index => ∀ msg ∈ appender.pending[index]?, StoresInTime appender msg
  | _ => True

/-- What is stored is in the file or in the buffer. -/
structure Balanced (appender : AsyncAppender) : Prop where
  stored : appender.stored = appender.file ++ appender.buf.items
  running : appender.running = true ↔ appender.phase = .notCalled
  exited : appender.writer = .exited → appender.running = false
  returned : appender.phase = .returned → appender.writer = .exited

/-- What the file gets until the writer ends is what it should get. -/
structure OnCourse (appender : AsyncAppender) : Prop extends Balanced appender where
  drains : appender.running = false → WillDrain appender → appender.stored = appender.owed
  drained : appender.running = false → ¬ WillDrain appender → appender.file = appender.owed

/-- What the file gets is not what it should get. -/
structure OffCourse (appender : AsyncAppender) : Prop extends Balanced appender where
  stopped : appender.running = false
  drains : WillDrain appender → appender.owed.length < appender.stored.length
  drained : ¬ WillDrain appender → appender.file ≠ appender.owed

variable {appender next : AsyncAppender} {action : AppenderAction}

theorem balanced_create : Balanced create := by
  constructor <;> simp [create]

theorem onCourse_create : OnCourse create := ⟨balanced_create, by simp [create], by simp [create]⟩

/-! ## The steps -/

theorem Balanced.pending (balanced : Balanced appender) (pending : List (List UInt8)) :
    Balanced { appender with pending } :=
  ⟨balanced.stored, balanced.running, balanced.exited, balanced.returned⟩

theorem OnCourse.pending (course : OnCourse appender) (pending : List (List UInt8)) :
    OnCourse { appender with pending } :=
  ⟨course.toBalanced.pending pending, course.drains, course.drained⟩

theorem OffCourse.pending (course : OffCourse appender) (pending : List (List UInt8)) :
    OffCourse { appender with pending } :=
  ⟨course.toBalanced.pending pending, course.stopped, course.drains, course.drained⟩

theorem Balanced.write (balanced : Balanced appender) (content : List UInt8) : Balanced (appender.write content) where
  stored := by
    simp only [AsyncAppender.write, accepted, BoundedQueue.items_write, balanced.stored, List.append_assoc]
  running := balanced.running
  exited := balanced.exited
  returned := balanced.returned

theorem OnCourse.write (course : OnCourse appender) {content : List UInt8} (inTime : StoresInTime appender content) :
    OnCourse (appender.write content) where
  toBalanced := course.toBalanced.write content
  drains := by
    intro stopped drains
    have nothing := inTime stopped drains
    rw [AsyncAppender.write, nothing, List.append_nil]
    exact course.drains stopped drains
  drained := course.drained

theorem OffCourse.write (course : OffCourse appender) (content : List UInt8) : OffCourse (appender.write content) where
  toBalanced := course.toBalanced.write content
  stopped := course.stopped
  drains := by
    intro drains
    have before := course.drains drains
    simp only [AsyncAppender.write, List.length_append]
    exact Nat.lt_add_right _ before
  drained := course.drained

/-- A byte too many comes in. -/
theorem OnCourse.late_write (course : OnCourse appender) {content : List UInt8}
    (late : ¬ StoresInTime appender content) : OffCourse (appender.write content) := by
  obtain ⟨stopped, drains, some⟩ : appender.running = false ∧ WillDrain appender ∧ appender.accepted content ≠ [] := by
    simpa [StoresInTime] using late
  refine ⟨course.toBalanced.write content, stopped, fun _ => ?_, fun ended => absurd drains ended⟩
  have positive := List.length_pos_iff.2 some
  simp only [AsyncAppender.write, List.length_append, course.drains stopped drains]
  omega

/-- Under the lock the writer waits on, or the file has all that is stored. -/
theorem Balanced.drain (balanced : Balanced appender) (drains : WillDrain appender) :
    Balanced appender.drain ∧
      (WillDrain appender.drain ∨ ¬ WillDrain appender.drain ∧ appender.drain.file = appender.stored) := by
  have outside : appender.phase ≠ .returned := by
    intro returned
    have ended := balanced.returned returned
    simp [WillDrain, ended] at drains
  rw [AsyncAppender.drain]
  split
  case isTrue =>
    exact ⟨⟨balanced.stored, balanced.running, by simp, fun returned => absurd returned outside⟩, .inl (.inr rfl)⟩
  case isFalse =>
    have all : appender.file ++ appender.buf.items.take appender.buf.items.length = appender.stored := by
      rw [List.take_length, balanced.stored]
    refine ⟨⟨?_, balanced.running, by simp, fun returned => absurd returned outside⟩, .inr ⟨by simp [WillDrain], all⟩⟩
    simp [balanced.stored]

theorem drain_frame (appender : AsyncAppender) : appender.drain.running = appender.running ∧
    appender.drain.stored = appender.stored ∧ appender.drain.owed = appender.owed := by
  rw [AsyncAppender.drain]
  split <;> exact ⟨rfl, rfl, rfl⟩

theorem OnCourse.drain (course : OnCourse appender) (drains : WillDrain appender) : OnCourse appender.drain := by
  obtain ⟨running, stored, owed⟩ := drain_frame appender
  obtain ⟨balanced, after⟩ := course.toBalanced.drain drains
  refine ⟨balanced, fun stopped _ => ?_, fun stopped ended => ?_⟩
  · rw [stored, owed]
    exact course.drains (running ▸ stopped) drains
  · obtain again | ⟨-, file⟩ := after
    · exact absurd again ended
    · rw [file, owed]
      exact course.drains (running ▸ stopped) drains

theorem OffCourse.drain (course : OffCourse appender) (drains : WillDrain appender) : OffCourse appender.drain := by
  obtain ⟨running, stored, owed⟩ := drain_frame appender
  obtain ⟨balanced, after⟩ := course.toBalanced.drain drains
  have more := course.drains drains
  refine ⟨balanced, running.trans course.stopped, fun _ => ?_, fun ended => ?_⟩
  · rw [stored, owed]
    exact more
  · obtain again | ⟨-, file⟩ := after
    · exact absurd again ended
    · rw [file, owed]
      intro same
      rw [same] at more
      exact Nat.lt_irrefl _ more

/-! What the remaining steps come to. -/

theorem step_lock (stepped : appender.step .lock = some next) : WillDrain appender ∧ next = appender.drain := by
  rw [step] at stepped
  cases place : appender.writer <;> simp [place] at stepped
  exact ⟨.inl place, stepped.symm⟩

theorem step_wake (stepped : appender.step .wake = some next) : WillDrain appender ∧ next = appender.drain := by
  rw [step] at stepped
  cases place : appender.writer <;> simp [place] at stepped
  exact ⟨.inr place, stepped.symm⟩

theorem step_test (stepped : appender.step .test = some next) :
    appender.writer = .testing ∧ next = { appender with writer := if appender.running then .locking else .exited } := by
  rw [step] at stepped
  cases place : appender.writer <;> simp [place] at stepped
  exact ⟨rfl, stepped.symm⟩

theorem step_join (stepped : appender.step .join = some next) :
    appender.phase = .joining ∧ appender.writer = .exited ∧ next = { appender with phase := .returned } := by
  rw [step] at stepped
  cases phase : appender.phase <;> cases place : appender.writer <;> simp [phase, place] at stepped
  exact ⟨rfl, rfl, stepped.symm⟩

theorem step_logEvent {index : Nat} (stepped : appender.step (.logEvent index) = some next) :
    ∃ msg, appender.pending[index]? = some msg ∧
      next = { appender.write msg with pending := appender.pending.eraseIdx index } := by
  rw [step] at stepped
  cases found : appender.pending[index]? with
  | none => simp [found] at stepped
  | some msg => exact ⟨msg, rfl, by simpa [found] using stepped.symm⟩

theorem Balanced.not_willDrain (balanced : Balanced appender) (returned : appender.phase = .returned) :
    appender.running = false ∧ ¬ WillDrain appender := by
  have place := balanced.returned returned
  exact ⟨balanced.exited place, by simp [WillDrain, place]⟩

theorem Balanced.test (balanced : Balanced appender) (place : appender.writer = .testing) :
    Balanced { appender with writer := if appender.running then .locking else .exited } where
  stored := balanced.stored
  running := balanced.running
  exited := by
    cases running : appender.running <;> simp
  returned := by
    intro returned
    have ended := balanced.returned returned
    rw [place] at ended
    cases ended

theorem Balanced.stop (balanced : Balanced appender) :
    Balanced { appender with running := false, phase := .joining, owed := appender.stored } where
  stored := balanced.stored
  running := by simp
  exited := fun _ => rfl
  returned := by simp

theorem Balanced.join (balanced : Balanced appender) (place : appender.writer = .exited) :
    Balanced { appender with phase := .returned } where
  stored := balanced.stored
  running := by simp [balanced.exited place]
  exited := balanced.exited
  returned := fun _ => place

theorem OnCourse.step (course : OnCourse appender) (inTime : StopsInTime appender action)
    (stepped : appender.step action = some next) : OnCourse next := by
  cases action with
  | log content =>
    cases stepped
    exact course.write inTime
  | format msg =>
    cases stepped
    split
    · exact course.pending _
    · exact course
  | logEvent index =>
    obtain ⟨msg, found, rfl⟩ := step_logEvent stepped
    exact (course.write (inTime msg found)).pending _
  | test =>
    obtain ⟨place, rfl⟩ := step_test stepped
    refine ⟨course.toBalanced.test place, fun stopped drains => ?_, fun stopped _ => ?_⟩
    · simp only at stopped
      simp [WillDrain, stopped] at drains
    · exact course.drained stopped (by simp [WillDrain, place])
  | lock =>
    obtain ⟨drains, rfl⟩ := step_lock stepped
    exact course.drain drains
  | wake =>
    obtain ⟨drains, rfl⟩ := step_wake stepped
    exact course.drain drains
  | stop =>
    cases stepped
    split
    case isFalse => exact course
    case isTrue running =>
      refine ⟨course.toBalanced.stop, fun _ _ => rfl, fun _ ended => ?_⟩
      have empty := inTime running ended
      have stored := course.stored
      rw [empty, List.append_nil] at stored
      exact stored.symm
  | join =>
    obtain ⟨-, place, rfl⟩ := step_join stepped
    exact ⟨course.toBalanced.join place, course.drains, course.drained⟩

theorem OffCourse.step (course : OffCourse appender) (stepped : appender.step action = some next) : OffCourse next := by
  have stopped := course.stopped
  cases action with
  | log content =>
    cases stepped
    exact course.write content
  | format msg =>
    cases stepped
    split
    · exact course.pending _
    · exact course
  | logEvent index =>
    obtain ⟨msg, found, rfl⟩ := step_logEvent stepped
    exact (course.write msg).pending _
  | test =>
    obtain ⟨place, rfl⟩ := step_test stepped
    refine ⟨course.toBalanced.test place, stopped, fun drains => ?_, fun _ => ?_⟩
    · simp [WillDrain, stopped] at drains
    · exact course.drained (by simp [WillDrain, place])
  | lock =>
    obtain ⟨drains, rfl⟩ := step_lock stepped
    exact course.drain drains
  | wake =>
    obtain ⟨drains, rfl⟩ := step_wake stepped
    exact course.drain drains
  | stop =>
    cases stepped
    simpa [stopped] using course
  | join =>
    obtain ⟨-, place, rfl⟩ := step_join stepped
    exact ⟨course.toBalanced.join place, stopped, course.drains, course.drained⟩

/-- A step that is not in time leaves the course for good. -/
theorem OnCourse.leaves (course : OnCourse appender) (late : ¬ StopsInTime appender action)
    (stepped : appender.step action = some next) : OffCourse next := by
  cases action with
  | log content =>
    cases stepped
    exact course.late_write late
  | logEvent index =>
    obtain ⟨msg, found, rfl⟩ := step_logEvent stepped
    have after : OffCourse (appender.write msg) := course.late_write (by simpa [StopsInTime, found] using late)
    exact after.pending _
  | stop =>
    obtain ⟨running, ended, left⟩ : appender.running = true ∧ ¬ WillDrain appender ∧ appender.buf.items ≠ [] := by
      simpa [StopsInTime] using late
    cases stepped
    rw [if_pos running]
    refine ⟨course.toBalanced.stop, rfl, fun drains => absurd drains ended, fun _ same => ?_⟩
    simp only at same
    rw [course.stored] at same
    exact left (List.self_eq_append_right.1 same)
  | format | test | lock | wake | join => exact absurd trivial late

theorem Balanced.returned_stays (balanced : Balanced appender) (returned : appender.phase = .returned)
    (stepped : appender.step action = some next) : next.phase = .returned := by
  obtain ⟨stopped, ended⟩ := balanced.not_willDrain returned
  cases action with
  | log content =>
    cases stepped
    exact returned
  | format msg =>
    cases stepped
    simpa [stopped] using returned
  | logEvent index =>
    obtain ⟨msg, found, rfl⟩ := step_logEvent stepped
    exact returned
  | test =>
    obtain ⟨place, rfl⟩ := step_test stepped
    exact returned
  | lock => exact absurd (step_lock stepped).1 ended
  | wake => exact absurd (step_wake stepped).1 ended
  | stop =>
    cases stepped
    simpa [stopped] using returned
  | join =>
    obtain ⟨joining, -⟩ := step_join stepped
    cases joining.symm.trans returned

/-! ## Runs -/

theorem OnCourse.fileComplete (course : OnCourse appender) : FileComplete appender := by
  intro returned
  obtain ⟨stopped, ended⟩ := course.not_willDrain returned
  exact course.drained stopped ended

/-- Off course, a run without a loss is one in which `stop()` does not return. -/
theorem OffCourse.notReturned (course : OffCourse appender) {actions : List AppenderAction}
    (nothing : Throughout AsyncAppender.step FileComplete appender actions) :
    Throughout AsyncAppender.step NotReturned appender actions := by
  have now {other : AsyncAppender} (course : OffCourse other) (nothing : FileComplete other) : NotReturned other := by
    intro returned
    exact course.drained (course.not_willDrain returned).2 (nothing returned)
  induction actions generalizing appender with
  | nil => exact now course nothing
  | cons action actions ih =>
    exact ⟨now course nothing.1, fun next stepped => ih (course.step stepped) (nothing.2 next stepped)⟩

theorem inTime_of_impossible (impossible : appender.step action = none) : StopsInTime appender action := by
  cases action with
  | log | stop => cases impossible
  | logEvent index =>
    intro msg found
    simp [AsyncAppender.step, Option.mem_def.1 found] at impossible
  | format | test | lock | wake | join => trivial

theorem OnCourse.stopsInTime (course : OnCourse appender) {actions : List AppenderAction}
    (nothing : Throughout AsyncAppender.step FileComplete appender actions) :
    Throughout AsyncAppender.step NotReturned appender actions ∨
      EachStep AsyncAppender.step StopsInTime appender actions := by
  induction actions generalizing appender with
  | nil => exact .inr trivial
  | cons action actions ih =>
    cases stepped : appender.step action with
    | none =>
      refine .inr ⟨inTime_of_impossible stepped, fun next also => ?_⟩
      rw [stepped] at also
      cases also
    | some next =>
      have rest : Throughout AsyncAppender.step NotReturned next actions →
          Throughout AsyncAppender.step NotReturned appender (action :: actions) := by
        intro later
        refine ⟨fun returned => later.start (course.returned_stays returned stepped), fun other also => ?_⟩
        cases stepped.symm.trans also
        exact later
      have later := nothing.2 next stepped
      by_cases inTime : StopsInTime appender action
      · exact (ih (course.step inTime stepped) later).imp rest fun each => .cons inTime stepped each
      · exact .inl (rest ((course.leaves inTime stepped).notReturned later))

/-- A run with `stop()` returning has the right file if and only if the writer is still to drain when it is
stopped, or has nothing to drain, and nothing more is stored before it has drained. -/
theorem nothing_lost_iff (actions : List AppenderAction) :
    Throughout AsyncAppender.step FileComplete create actions ↔
      Throughout AsyncAppender.step NotReturned create actions ∨ EachStep AsyncAppender.step StopsInTime create actions := by
  refine ⟨onCourse_create.stopsInTime, ?_⟩
  rintro (never | each)
  · exact never.imp fun before returned => absurd returned before
  · exact throughout_of_eachStep OnCourse.fileComplete (fun course inTime stepped => course.step inTime stepped)
      onCourse_create each

/-- The byte is stored after a test of `_running` and before the next one. -/
theorem last_line_lost : ¬ Throughout AsyncAppender.step FileComplete create [.log [120], .stop, .test, .join] := by
  intro nothing
  have last := nothing.last rfl rfl
  revert last
  decide

end Cassobee.Proofs
