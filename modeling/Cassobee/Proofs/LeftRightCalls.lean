import Cassobee.LeftRightCalls
import Cassobee.Proofs.LeftRight

/-! `left_right` is linearizable: no caller can tell it from one content to which each function is
applied at once. A read takes its effect when it loads `_left_right`, a write when it stores it. -/

namespace Cassobee
open Support

namespace Proofs
variable {ρ : Type} {n : Nat} {slot : ρ → Fin n} {γ β : Type}

/-- From the load of `_left_right` on, the instance that is read has the content of that moment. -/
def ReaderTold (inst : Side → γ) (call : AtomicCall (LeftRightOp γ β) (Option β)) (func : γ → β) (answer : Option (Option β)) :
    ReaderStage → Prop
  | .reading _ side => call = .done (some (func (inst side))) ∧ ∀ value, answer = some value → value = some (func (inst side))
  | .idle | .loaded _ | .arrived _ => call = .called (.read func) ∧ answer = none

/-- From the store of `_left_right` on, the other instance is behind by the function of the writer. -/
def WriterTold (inst : Side → γ) (leftRight : Side) (call : AtomicCall (LeftRightOp γ β) (Option β)) (func : γ → β × γ) :
    WriterStage → Prop
  | .idle => False
  | .mutating _ => call = .called (.write func)
  | .stored _ | .scanningNext _ _ _ | .scanningPrevious _ _ _ | .mutatingOther _ =>
    call = .done (some (func (inst leftRight.other)).1) ∧ inst leftRight = (func (inst leftRight.other)).2

def CallTold (object : LeftRightObject ρ n γ β) (stage : ReaderStage) (call : AtomicCall (LeftRightOp γ β) (Option β)) :
    LeftRightCall γ β → Prop
  | .outside => call = .outside ∧ stage = .idle
  | .reading func answer => ReaderTold object.inst call func answer stage
  | .waiting func => call = .called (.write func) ∧ stage = .idle
  | .writing func => WriterTold object.inst object.control.leftRight call func object.control.writer ∧ stage = .idle

/-- Before the writer's store both instances are alike. -/
def Alike (inst : Side → γ) (leftRight : Side) : WriterStage → Prop
  | .idle | .mutating _ => inst leftRight.other = inst leftRight
  | .stored _ | .scanningNext _ _ _ | .scanningPrevious _ _ _ | .mutatingOther _ => True

def Waits : WriterStage → Prop
  | .stored _ | .scanningNext _ _ _ | .scanningPrevious _ _ _ => True
  | .idle | .mutating _ | .mutatingOther _ => False

structure Linearizing (slot : ρ → Fin n) (object : LeftRightObject ρ n γ β)
    (atomic : AtomicObject ρ (LeftRightOp γ β) (Option β) γ) : Prop where
  guarded : Guarded slot object.control
  content : atomic.content = object.inst object.control.leftRight
  alike : Alike object.inst object.control.leftRight object.control.writer
  holder {one other : ρ} {func func' : γ → β × γ} (mine : object.calls one = .writing func)
    (also : object.calls other = .writing func') : one = other
  told (thread : ρ) : CallTold object (object.control.readers thread) (atomic.calls thread) (object.calls thread)

theorem linearizing_new (content : γ) :
    Linearizing slot (.new content : LeftRightObject ρ n γ β) (AtomicObject.fresh content) := by
  refine ⟨guarded_initial, rfl, rfl, fun mine => ?_, fun _ => ⟨rfl, rfl⟩⟩
  cases mine

/-- The lock is free, so no thread is writing. -/
theorem Linearizing.none_writes {object : LeftRightObject ρ n γ β}
    {atomic : AtomicObject ρ (LeftRightOp γ β) (Option β) γ} (linearizing : Linearizing slot object atomic)
    (free : object.control.writer = .idle) (other : ρ) (func : γ → β × γ) : object.calls other ≠ .writing func := by
  intro writes
  have told := linearizing.told other
  rw [writes] at told
  simp only [CallTold, free, WriterTold, false_and] at told

theorem readers_writerStep (lr : LeftRight ρ n) : lr.writerStep.readers = lr.readers := by
  unfold LeftRight.writerStep
  split
  all_goals first | rfl | (split <;> rfl)

/-- While the writer waits for readers, `_left_right` stays and so does what the writer has left to do. -/
theorem waits_step {inst : Side → γ} {call : AtomicCall (LeftRightOp γ β) (Option β)} {func : γ → β × γ} {lr : LeftRight ρ n}
    {stage : WriterStage} (here : lr.writer = stage) (waits : Waits stage) (told : WriterTold inst lr.leftRight call func stage) :
    lr.writerStep.leftRight = lr.leftRight ∧ Alike inst lr.writerStep.leftRight lr.writerStep.writer ∧
      WriterTold inst lr.writerStep.leftRight call func lr.writerStep.writer := by
  cases stage with
  | idle | mutating | mutatingOther => exact waits.elim
  | stored read =>
    simp only [LeftRight.writerStep, here]
    exact ⟨trivial, trivial, told⟩
  | scanningNext read version idx | scanningPrevious read version idx =>
    simp only [LeftRight.writerStep, here]
    split <;> exact ⟨rfl, trivial, told⟩

variable [DecidableEq ρ]

theorem readerStep_keeps (slot : ρ → Fin n) (lr : LeftRight ρ n) (thread : ρ) :
    (lr.readerStep slot thread).leftRight = lr.leftRight ∧ (lr.readerStep slot thread).writer = lr.writer ∧
      ∀ other, other ≠ thread → (lr.readerStep slot thread).readers other = lr.readers other := by
  unfold LeftRight.readerStep
  split <;> exact ⟨rfl, rfl, fun other different => Function.update_of_ne different ..⟩

variable {object next : LeftRightObject ρ n γ β} {atomic after : AtomicObject ρ (LeftRightOp γ β) (Option β) γ} {thread : ρ}

/-- A step that changes the call of one thread, as a reader or before it has the lock. -/
theorem Linearizing.move (thread : ρ) (linearizing : Linearizing slot object atomic) (guarded : Guarded slot next.control)
    (leftRight : next.control.leftRight = object.control.leftRight) (writer : next.control.writer = object.control.writer)
    (inst : next.inst = object.inst) (readers : ∀ other, other ≠ thread → next.control.readers other = object.control.readers other)
    (calls : ∀ other, other ≠ thread → next.calls other = object.calls other)
    (content : after.content = atomic.content) (others : ∀ other, other ≠ thread → after.calls other = atomic.calls other)
    (outside : ∀ func, next.calls thread ≠ .writing func)
    (told : CallTold next (next.control.readers thread) (after.calls thread) (next.calls thread)) :
    Linearizing slot next after := by
  refine ⟨guarded, ?_, ?_, fun {one other _ _} mine also => ?_, fun other => ?_⟩
  · rw [content, linearizing.content, inst, leftRight]
  · rw [inst, leftRight, writer]
    exact linearizing.alike
  · have apart : one ≠ thread := fun same => outside _ (same ▸ mine)
    have apart' : other ≠ thread := fun same => outside _ (same ▸ also)
    rw [calls one apart] at mine
    rw [calls other apart'] at also
    exact linearizing.holder mine also
  · by_cases same : other = thread
    · rw [same]
      exact told
    · have before := linearizing.told other
      rw [readers other same, calls other same, others other same]
      cases call : object.calls other with
      | outside | waiting func =>
        rw [call] at before
        exact before
      | reading func answer =>
        rw [call] at before
        simp only [CallTold, inst] at before ⊢
        exact before
      | writing func =>
        rw [call] at before
        simp only [CallTold, inst, leftRight, writer] at before ⊢
        exact before

theorem Linearizing.called {op : LeftRightOp γ β} (linearizing : Linearizing slot object atomic)
    (stepped : object.step slot (.call thread op) = some next) :
    ∃ after, AtomicObject.Goes LeftRightOp.apply atomic [.call thread op] after ∧ Linearizing slot next after := by
  have told := linearizing.told thread
  simp only [LeftRightObject.step] at stepped
  cases here : object.calls thread with
  | reading | waiting | writing => simp [here] at stepped
  | outside =>
    rw [here] at told
    obtain ⟨outside, idle⟩ := told
    refine ⟨_, AtomicObject.goes_call outside, ?_⟩
    cases op with
    | read func =>
      simp only [here, Option.some.injEq] at stepped
      subst stepped
      refine linearizing.move thread linearizing.guarded rfl rfl rfl (fun _ _ => rfl) ?_ rfl ?_ ?_ ?_
      · exact fun other different => Function.update_of_ne different ..
      · exact fun other different => Function.update_of_ne different ..
      · simp [LeftRightObject.setCall]
      · simp [LeftRightObject.setCall, AtomicObject.set, CallTold, ReaderTold, idle]
    | write func =>
      simp only [here, Option.some.injEq] at stepped
      subst stepped
      refine linearizing.move thread linearizing.guarded rfl rfl rfl (fun _ _ => rfl) ?_ rfl ?_ ?_ ?_
      · exact fun other different => Function.update_of_ne different ..
      · exact fun other different => Function.update_of_ne different ..
      · simp [LeftRightObject.setCall]
      · simp [LeftRightObject.setCall, AtomicObject.set, CallTold, idle]

theorem Linearizing.readerAdvanced {func : γ → β} {answer : Option (Option β)}
    (linearizing : Linearizing slot object atomic) (here : object.calls thread = .reading func answer) :
    ∃ after, AtomicObject.Goes LeftRightOp.apply atomic (object.seen (.advance thread)) after ∧
      Linearizing slot (object.readerStep slot thread func answer) after := by
  have told := linearizing.told thread
  have exclusive := linearizing.guarded.exclusive
  have guarded := linearizing.guarded.readerStep thread
  obtain ⟨leftRight, writer, readers⟩ := readerStep_keeps slot object.control thread
  rw [here] at told
  have silent (none_yet : answer = none) : object.seen (.advance thread) = [] := by
    simp only [LeftRightObject.seen, here, none_yet]
  cases stage : object.control.readers thread with
  | idle =>
    rw [stage] at told
    obtain ⟨called, none_yet⟩ := told
    rw [silent none_yet]
    refine ⟨atomic, .refl atomic, ?_⟩
    simp only [LeftRightObject.readerStep, stage]
    refine linearizing.move thread guarded leftRight writer rfl readers (fun _ _ => rfl) rfl (fun _ _ => rfl) ?_ ?_
    · simp [here]
    · simp only [here, LeftRight.readerStep, stage, LeftRight.setReader, Function.update_self, CallTold, ReaderTold]
      exact ⟨called, none_yet⟩
  | loaded version =>
    rw [stage] at told
    obtain ⟨called, none_yet⟩ := told
    rw [silent none_yet]
    refine ⟨atomic, .refl atomic, ?_⟩
    simp only [LeftRightObject.readerStep, stage]
    refine linearizing.move thread guarded leftRight writer rfl readers (fun _ _ => rfl) rfl (fun _ _ => rfl) ?_ ?_
    · simp [here]
    · simp only [here, LeftRight.readerStep, stage, LeftRight.setReader, Function.update_self, CallTold, ReaderTold]
      exact ⟨called, none_yet⟩
  | arrived version =>
    rw [stage] at told
    obtain ⟨called, none_yet⟩ := told
    rw [silent none_yet]
    -- the load of `_left_right`
    refine ⟨_, AtomicObject.goes_effect called, ?_⟩
    simp only [LeftRightObject.readerStep, stage]
    refine linearizing.move thread guarded leftRight writer rfl readers (fun _ _ => rfl) rfl ?_ ?_ ?_
    · exact fun other different => Function.update_of_ne different ..
    · simp [here]
    · simp only [here, LeftRight.readerStep, stage, LeftRight.setReader, Function.update_self, CallTold, ReaderTold,
        AtomicObject.set, LeftRightOp.apply, linearizing.content, none_yet]
      exact ⟨trivial, fun value impossible => by cases impossible⟩
  | reading version side =>
    rw [stage] at told
    obtain ⟨done, told⟩ := told
    cases answer with
    | none =>
      rw [silent rfl]
      refine ⟨atomic, .refl atomic, ?_⟩
      simp only [LeftRightObject.readerStep, stage]
      have viewed : object.view side func = some (func (object.inst side)) := if_neg (exclusive thread version side stage)
      refine linearizing.move thread linearizing.guarded rfl rfl rfl (fun _ _ => rfl) ?_ rfl (fun _ _ => rfl) ?_ ?_
      · exact fun other different => Function.update_of_ne different ..
      · simp [LeftRightObject.setCall]
      · simp only [LeftRightObject.setCall, Function.update_self, CallTold, stage, ReaderTold, viewed]
        exact ⟨done, fun value same => (Option.some.inj same).symm⟩
    | some value =>
      have same := told value rfl
      have shown : object.seen (.advance thread) = [.answer thread (some (func (object.inst side)))] := by
        simp only [LeftRightObject.seen, here, same]
      rw [shown]
      refine ⟨_, AtomicObject.goes_answer done, ?_⟩
      simp only [LeftRightObject.readerStep, stage]
      refine linearizing.move thread guarded leftRight writer rfl readers ?_ rfl ?_ ?_ ?_
      · exact fun other different => Function.update_of_ne different ..
      · exact fun other different => Function.update_of_ne different ..
      · simp [LeftRightObject.setCall]
      · simp [LeftRightObject.setCall, AtomicObject.set, CallTold, LeftRight.readerStep, stage, LeftRight.setReader]

/-- A writer takes the lock. -/
theorem Linearizing.locked {func : γ → β × γ} (linearizing : Linearizing slot object atomic)
    (here : object.calls thread = .waiting func) (free : object.control.writer = .idle) :
    Linearizing slot ({ object with control := object.control.writerStep }.setCall thread (.writing func)) atomic := by
  have alike := linearizing.alike
  rw [free] at alike
  have control : object.control.writerStep = { object.control with writer := .mutating object.control.leftRight } := by
    simp only [LeftRight.writerStep, free]
  refine ⟨linearizing.guarded.writerStep, ?_, ?_, fun {one other _ _} mine also => ?_, fun other => ?_⟩
  · simp only [LeftRightObject.setCall, control]
    exact linearizing.content
  · simp only [LeftRightObject.setCall, control]
    exact alike
  · have only (one : ρ) {func' : γ → β × γ}
        (mine : Function.update object.calls thread (.writing func) one = .writing func') : one = thread := by
      by_contra different
      rw [Function.update_of_ne different] at mine
      exact linearizing.none_writes free one func' mine
    rw [only one mine, only other also]
  · have told := linearizing.told other
    simp only [LeftRightObject.setCall, control]
    by_cases same : other = thread
    · rw [same] at told ⊢
      rw [here] at told
      rw [Function.update_self]
      exact told
    · rw [Function.update_of_ne same]
      cases call : object.calls other with
      | outside | reading func' answer | waiting func' =>
        rw [call] at told
        exact told
      | writing func' => exact absurd call (linearizing.none_writes free other func')

/-- A step of the thread that has the lock. Readers go on reading what they have been reading. -/
theorem Linearizing.written {func : γ → β × γ} (linearizing : Linearizing slot object atomic)
    (here : object.calls thread = .writing func) (guarded : Guarded slot next.control)
    (readers : next.control.readers = object.control.readers) (content : after.content = next.inst next.control.leftRight)
    (alike : Alike next.inst next.control.leftRight next.control.writer)
    (inst : ∀ other version side, object.control.readers other = .reading version side → next.inst side = object.inst side)
    (calls : ∀ other, other ≠ thread → next.calls other = object.calls other)
    (others : ∀ other, other ≠ thread → after.calls other = atomic.calls other)
    (told : CallTold next (next.control.readers thread) (after.calls thread) (next.calls thread)) :
    Linearizing slot next after := by
  refine ⟨guarded, content, alike, fun {one other _ _} mine also => ?_, fun other => ?_⟩
  · have only (one : ρ) {func' : γ → β × γ} (mine : next.calls one = .writing func') : one = thread := by
      by_contra different
      rw [calls one different] at mine
      exact different (linearizing.holder mine here)
    rw [only one mine, only other also]
  · by_cases same : other = thread
    · rw [same]
      exact told
    · have before := linearizing.told other
      rw [readers, calls other same, others other same]
      cases call : object.calls other with
      | outside | waiting func' =>
        rw [call] at before
        exact before
      | writing func' => exact absurd (linearizing.holder call here) same
      | reading func' answer =>
        rw [call] at before
        simp only [CallTold] at before ⊢
        cases stage : object.control.readers other with
        | idle | loaded | arrived =>
          rw [stage] at before
          exact before
        | reading version side =>
          rw [stage] at before
          simp only [ReaderTold, inst other version side stage] at before ⊢
          exact before

omit [DecidableEq ρ] in
/-- An instance that is mutated has no reader. -/
private theorem Linearizing.unread (linearizing : Linearizing slot object atomic) {side read : Side} {version : Bool} {other : ρ}
    (mutates : object.control.writer.mutates = some side) (value : γ)
    (reads : object.control.readers other = .reading version read) :
    Function.update object.inst side value read = object.inst read := by
  apply Function.update_of_ne
  rintro rfl
  exact linearizing.guarded.exclusive other version read reads mutates

private theorem Linearizing.mutated {func : γ → β × γ} {read : Side} (linearizing : Linearizing slot object atomic)
    (here : object.calls thread = .writing func) (stage : object.control.writer = .mutating read) :
    ∃ after, AtomicObject.Goes LeftRightOp.apply atomic (object.seen (.advance thread)) after ∧
      Linearizing slot (object.writerStep thread func) after := by
  have told := linearizing.told thread
  have alike := linearizing.alike
  have agrees := linearizing.guarded.agrees
  have guarded := linearizing.guarded.writerStep
  have readers := readers_writerStep object.control
  rw [here] at told
  obtain ⟨told, idle⟩ := told
  rw [stage] at told alike agrees
  have current : object.control.leftRight = read := agrees
  have same : object.inst read.other = object.inst read := current ▸ alike
  have content : atomic.content = object.inst read := current ▸ linearizing.content
  have control : object.control.writerStep = { object.control with leftRight := read.other, writer := .stored read } := by
    simp only [LeftRight.writerStep, stage]
  have shown : object.seen (.advance thread) = [] := by
    simp only [LeftRightObject.seen, here, stage]
  rw [shown]
  -- the store of `_left_right`
  refine ⟨_, AtomicObject.goes_effect told, ?_⟩
  simp only [LeftRightObject.writerStep, stage]
  refine linearizing.written here guarded readers ?_ ?_ ?_ (fun _ _ => rfl) ?_ ?_
  · simp only [LeftRightObject.mutate, control, AtomicObject.set, LeftRightOp.apply, Function.update_self, content, same]
  · simp only [control]
    trivial
  · exact fun other version side => linearizing.unread (by rw [stage]; rfl) _
  · exact fun other different => Function.update_of_ne different ..
  · simp only [LeftRightObject.mutate, control, AtomicObject.set, LeftRightOp.apply, here, CallTold, WriterTold,
      Function.update_self, other_other, Function.update_of_ne (ne_other read), content, same]
    exact ⟨⟨trivial, trivial⟩, idle⟩

private theorem Linearizing.mutatedOther {func : γ → β × γ} {read : Side} (linearizing : Linearizing slot object atomic)
    (here : object.calls thread = .writing func) (stage : object.control.writer = .mutatingOther read) :
    ∃ after, AtomicObject.Goes LeftRightOp.apply atomic (object.seen (.advance thread)) after ∧
      Linearizing slot (object.writerStep thread func) after := by
  have told := linearizing.told thread
  have agrees := linearizing.guarded.agrees
  have guarded := linearizing.guarded.writerStep
  have readers := readers_writerStep object.control
  rw [here] at told
  obtain ⟨told, idle⟩ := told
  rw [stage] at told agrees
  have current : object.control.leftRight = read.other := agrees
  simp only [current, WriterTold, other_other] at told
  obtain ⟨done, ahead⟩ := told
  have control : object.control.writerStep = { object.control with writer := .idle } := by
    simp only [LeftRight.writerStep, stage]
  have shown : object.seen (.advance thread) = [.answer thread (some (func (object.inst read)).1)] := by
    simp only [LeftRightObject.seen, here, stage]
  rw [shown]
  refine ⟨_, AtomicObject.goes_answer done, ?_⟩
  simp only [LeftRightObject.writerStep, stage]
  refine linearizing.written here guarded readers ?_ ?_ ?_ ?_ ?_ ?_
  · simp only [LeftRightObject.setCall, LeftRightObject.mutate, control, AtomicObject.set, current,
      Function.update_of_ne (ne_other read).symm, linearizing.content]
  · simp only [LeftRightObject.setCall, LeftRightObject.mutate, control, current, Alike, other_other, Function.update_self,
      Function.update_of_ne (ne_other read).symm, ahead]
  · exact fun other version side => linearizing.unread (by rw [stage]; rfl) _
  · exact fun other different => Function.update_of_ne different ..
  · exact fun other different => Function.update_of_ne different ..
  · simp only [LeftRightObject.setCall, LeftRightObject.mutate, AtomicObject.set, Function.update_self, CallTold, readers, idle]
    exact ⟨trivial, trivial⟩

theorem Linearizing.writerAdvanced {func : γ → β × γ} (linearizing : Linearizing slot object atomic)
    (here : object.calls thread = .writing func) :
    ∃ after, AtomicObject.Goes LeftRightOp.apply atomic (object.seen (.advance thread)) after ∧
      Linearizing slot (object.writerStep thread func) after := by
  have told := linearizing.told thread
  have guarded := linearizing.guarded.writerStep
  have readers := readers_writerStep object.control
  rw [here] at told
  obtain ⟨told, idle⟩ := told
  cases stage : object.control.writer with
  | idle =>
    rw [stage] at told
    exact told.elim
  | mutating read => exact linearizing.mutated here stage
  | stored read | scanningNext read version idx | scanningPrevious read version idx =>
    have shown : object.seen (.advance thread) = [] := by
      simp only [LeftRightObject.seen, here, stage]
    rw [stage] at told
    obtain ⟨leftRight, alike', told'⟩ := waits_step stage trivial told
    rw [shown]
    refine ⟨atomic, .refl atomic, ?_⟩
    simp only [LeftRightObject.writerStep, stage]
    refine linearizing.written here guarded readers ?_ alike' (fun _ _ _ _ => rfl) (fun _ _ => rfl) (fun _ _ => rfl) ?_
    · rw [leftRight]
      exact linearizing.content
    · simp only [here, CallTold, readers]
      exact ⟨told', idle⟩
  | mutatingOther read => exact linearizing.mutatedOther here stage

theorem Linearizing.step {move : LeftRightMove ρ γ β} (linearizing : Linearizing slot object atomic)
    (stepped : object.step slot move = some next) :
    ∃ after, AtomicObject.Goes LeftRightOp.apply atomic (object.seen move) after ∧ Linearizing slot next after := by
  cases move with
  | call thread op => exact linearizing.called stepped
  | advance thread =>
    simp only [LeftRightObject.step] at stepped
    split at stepped
    next => cases stepped
    next func answer here =>
      cases stepped
      exact linearizing.readerAdvanced here
    next func here =>
      simp only [Option.ite_none_right_eq_some, Option.some.injEq] at stepped
      obtain ⟨free, rfl⟩ := stepped
      have shown : object.seen (.advance thread) = [] := by
        simp only [LeftRightObject.seen, here]
      rw [shown]
      exact ⟨atomic, .refl atomic, linearizing.locked here free⟩
    next func here =>
      cases stepped
      exact linearizing.writerAdvanced here

/-- Whatever threads read and write with whatever functions, and in whatever order their steps come:
the calls and their answers are those of one content to which every function is applied at once. -/
theorem left_right_linearizable (slot : ρ → Fin n) (content : γ) (moves : List (LeftRightMove ρ γ β))
    (final : LeftRightObject ρ n γ β) (ran : moves.foldlM (LeftRightObject.step slot) (.new content) = some final) :
    AtomicObject.Admits LeftRightOp.apply content
      (history (LeftRightObject.step slot) LeftRightObject.seen (.new content) moves) :=
  AtomicObject.admits_of_simulates (Linearizing slot) (fun linearizing _ stepped => linearizing.step stepped)
    (linearizing_new content) (eachStep_true _ moves) ran

/-- A reader that has loaded `_left_right` before the writer's store, and applies its function after it. -/
def readDuringWrite : List (LeftRightMove (Fin 2) Nat Nat) :=
  [.call 0 (.read fun content => content), .advance 0, .advance 0, .advance 0, .call 1 (.write fun content => (content, content + 1)),
    .advance 1, .advance 1, .advance 0, .advance 0, .advance 1, .advance 1, .advance 1, .advance 1, .advance 1, .advance 1]

theorem readDuringWrite_admitted :
    AtomicObject.Admits LeftRightOp.apply 7
      [.call 0 (.read fun content => content), .call 1 (.write fun content => (content, content + 1)), .answer (0 : Fin 2) (some 7),
        .answer 1 (some 7)] := by
  obtain ⟨final, ran⟩ : ∃ final, readDuringWrite.foldlM (LeftRightObject.step fun _ => (0 : Fin 1)) (.new 7) = some final :=
    ⟨_, rfl⟩
  exact left_right_linearizable (fun _ => (0 : Fin 1)) 7 readDuringWrite final ran

end Proofs
end Cassobee
