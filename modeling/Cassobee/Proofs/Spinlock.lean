import Cassobee.Spinlock

/-! `one_reader_double_buffer` under its spinlock is linearizable: a write adds its value to a list at
once, and a read takes the whole list at once. Nothing is lost, shown twice or shown out of order,
and no thread writes to the buffer that is being read. -/

namespace Cassobee
open Support

/-- What the two operations do to the values that wait for the reader. -/
def BufferOp.apply {γ τ : Type} (methods : BufferMethods γ τ) : BufferOp τ → List τ → Option γ × List τ
  | .write value, waiting => (none, waiting ++ [value])
  | .read, waiting => (some (methods.ofList waiting), [])

namespace BufferStage
variable {γ τ : Type}

/-- The thread is between `lock` and `unlock`. -/
def holds : BufferStage γ τ → Bool
  | .writeLocked _ | .inserting _ _ | .writeUnlocking | .readLocked | .flipping _ | .readUnlocking _ => true
  | _ => false

/-- The buffer that the reader has taken. -/
def taken : BufferStage γ τ → Option Bool
  | .readUnlocking idx | .reading idx | .clearing idx _ => some idx
  | _ => none

def reads : BufferStage γ τ → Bool
  | .readLocking _ | .readLocked | .flipping _ | .readUnlocking _ | .reading _ | .clearing _ _ => true
  | _ => false

end BufferStage

/-- At most one thread is between `lock` and `unlock`, and none writes to the buffer that the reader has
taken. -/
def LockedBuffer.Apart {ρ γ τ : Type} (db : LockedBuffer ρ γ τ) : Prop :=
  (∀ one other, (db.stages one).holds = true → (db.stages other).holds = true → one = other) ∧
    ∀ writer user value idx, db.stages writer = .inserting value idx → (db.stages user).taken ≠ some idx

namespace Proofs
variable {ρ γ τ : Type} {methods : BufferMethods γ τ} {pauses : Bool} {reader : ρ}

/-- What the place of a call tells of the buffers, and of the call at the list. -/
def StageTold (db : LockedBuffer ρ γ τ) (call : AtomicCall (BufferOp τ) (Option γ)) : BufferStage γ τ → Prop
  | .outside => call = .outside
  | .writeLocking value _ | .writeLocked value => call = .called (.write value)
  | .inserting value idx => call = .called (.write value) ∧ idx = db.writeidx
  | .writeUnlocking => call = .done none
  | .readLocking _ | .readLocked => call = .called .read
  | .flipping idx => call = .called .read ∧ idx = db.writeidx
  | .readUnlocking idx | .reading idx => call = .done (some (db.buffer idx)) ∧ idx = !db.writeidx
  | .clearing idx shown => call = .done (some shown) ∧ idx = !db.writeidx

structure Locked (methods : BufferMethods γ τ) (reader : ρ) (db : LockedBuffer ρ γ τ)
    (atomic : AtomicObject ρ (BufferOp τ) (Option γ) (List τ)) : Prop where
  holder {one other : ρ} (mine : (db.stages one).holds = true) (also : (db.stages other).holds = true) : one = other
  flag {thread : ρ} (mine : (db.stages thread).holds = true) : db.flag = true
  only {thread : ρ} (reads : (db.stages thread).reads = true) : thread = reader
  content : db.buffer db.writeidx = methods.ofList atomic.content
  spare (free : (db.stages reader).taken = none) : db.buffer (!db.writeidx) = methods.empty
  told (thread : ρ) : StageTold db (atomic.calls thread) (db.stages thread)

theorem reads_of_taken {stage : BufferStage γ τ} (some_taken : stage.taken ≠ none) : stage.reads = true := by
  cases stage <;> first | rfl | exact absurd rfl some_taken

theorem Locked.apart {db : LockedBuffer ρ γ τ} {atomic : AtomicObject ρ (BufferOp τ) (Option γ) (List τ)}
    (locked : Locked methods reader db atomic) : db.Apart := by
  refine ⟨fun _ _ => locked.holder, fun writer user value idx inserting taken => ?_⟩
  have mine := locked.told writer
  have other := locked.told user
  rw [inserting] at mine
  cases stage : db.stages user with
  | outside | writeLocking | writeLocked | inserting | writeUnlocking | readLocking | readLocked | flipping =>
    rw [stage] at taken
    cases taken
  | readUnlocking | reading | clearing =>
    rw [stage] at taken other
    cases taken
    have same := mine.2.symm.trans other.2
    cases side : db.writeidx <;> simp [side] at same

/-- The thread that holds the lock is the only one. -/
theorem Locked.alone {db : LockedBuffer ρ γ τ} {atomic : AtomicObject ρ (BufferOp τ) (Option γ) (List τ)}
    (locked : Locked methods reader db atomic) {thread other : ρ} (mine : (db.stages thread).holds = true)
    (different : other ≠ thread) : (db.stages other).holds ≠ true :=
  fun also => different (locked.holder also mine)

/-- One access of `lock`, whoever waits: it goes on, or the flag was clear and no other thread is inside. -/
theorem Locked.spins {db : LockedBuffer ρ γ τ} {atomic : AtomicObject ρ (BufferOp τ) (Option γ) (List τ)}
    (locked : Locked methods reader db atomic) {spin : SpinStage} (acquires : lockStep pauses db.flag spin = none)
    (other : ρ) : (db.stages other).holds ≠ true := by
  intro held
  have flagged := locked.flag held
  cases spin with
  | exchanging => simp [lockStep, flagged] at acquires
  | pausing => cases acquires

theorem locked_initial : Locked methods reader (.initial methods : LockedBuffer ρ γ τ) (.fresh []) := by
  refine ⟨fun mine => ?_, fun mine => ?_, fun reads => ?_, rfl, fun _ => rfl, fun _ => rfl⟩
  · cases mine
  · cases mine
  · cases reads

variable [DecidableEq ρ] {db next : LockedBuffer ρ γ τ} {atomic after : AtomicObject ρ (BufferOp τ) (Option γ) (List τ)}
  {thread : ρ} {stage : BufferStage γ τ}

/-- A step of one thread. The conditions on the others say that they do not notice. -/
theorem Locked.move (locked : Locked methods reader db atomic) (stages : next.stages = Function.update db.stages thread stage)
    (calls : ∀ other, other ≠ thread → after.calls other = atomic.calls other)
    (idx : ∀ other, other ≠ thread → (db.stages other).holds = true ∨ (db.stages other).taken ≠ none →
      next.writeidx = db.writeidx)
    (buffer : ∀ other, other ≠ thread → (db.stages other).taken ≠ none → next.buffer (!db.writeidx) = db.buffer (!db.writeidx))
    (flag : ∀ other, other ≠ thread → (db.stages other).holds = true → next.flag = true ∧ stage.holds = false)
    (mine : stage.holds = true → next.flag = true) (only : stage.reads = true → thread = reader)
    (content : next.buffer next.writeidx = methods.ofList after.content)
    (spare : (next.stages reader).taken = none → next.buffer (!next.writeidx) = methods.empty)
    (told : StageTold next (after.calls thread) stage) : Locked methods reader next after := by
  have here : next.stages thread = stage := by rw [stages, Function.update_self]
  have there (other : ρ) (different : other ≠ thread) : next.stages other = db.stages other := by
    rw [stages, Function.update_of_ne different]
  refine ⟨fun {one other} first second => ?_, fun {other} held => ?_, fun {other} reads => ?_, content, spare, fun other => ?_⟩
  · by_cases same : one = thread <;> by_cases same' : other = thread
    · rw [same, same']
    · rw [same, here] at first
      rw [there other same'] at second
      simp [(flag other same' second).2] at first
    · rw [there one same] at first
      rw [same', here] at second
      simp [(flag one same first).2] at second
    · rw [there one same] at first
      rw [there other same'] at second
      exact locked.holder first second
  · by_cases same : other = thread
    · rw [same, here] at held
      exact mine held
    · rw [there other same] at held
      exact (flag other same held).1
  · by_cases same : other = thread
    · rw [same, here] at reads
      exact same.trans (only reads)
    · rw [there other same] at reads
      exact locked.only reads
  · by_cases same : other = thread
    · rw [same, here]
      exact told
    · have before := locked.told other
      rw [there other same, calls other same]
      cases stand : db.stages other with
      | outside | writeLocking | writeLocked | writeUnlocking | readLocking | readLocked =>
        rw [stand] at before
        exact before
      | inserting | flipping =>
        rw [stand] at before
        exact ⟨before.1, before.2.trans (idx other same (.inl (by rw [stand]; rfl))).symm⟩
      | readUnlocking | reading =>
        rw [stand] at before
        have some_taken : (db.stages other).taken ≠ none := by
          rw [stand]
          exact Option.some_ne_none _
        have kept := idx other same (.inr some_taken)
        obtain ⟨done, rfl⟩ := before
        refine ⟨?_, by rw [kept]⟩
        rw [buffer other same some_taken]
        exact done
      | clearing =>
        rw [stand] at before
        have kept := idx other same (.inr (by rw [stand]; exact Option.some_ne_none _))
        exact ⟨before.1, by rw [kept]; exact before.2⟩

/-- A step that leaves the buffers and the list alone. -/
theorem Locked.quiet (locked : Locked methods reader db atomic) (stages : next.stages = Function.update db.stages thread stage)
    (idx : next.writeidx = db.writeidx) (buffer : next.buffer = db.buffer) (content : after.content = atomic.content)
    (calls : ∀ other, other ≠ thread → after.calls other = atomic.calls other)
    (keeps : (db.stages thread).taken = none ∨ stage.taken ≠ none)
    (flag : ∀ other, other ≠ thread → (db.stages other).holds = true → next.flag = true ∧ stage.holds = false)
    (mine : stage.holds = true → next.flag = true) (only : stage.reads = true → thread = reader)
    (told : StageTold db (after.calls thread) stage) : Locked methods reader next after := by
  refine locked.move stages calls (fun _ _ _ => idx) (fun _ _ _ => by rw [buffer]) flag mine only ?_ (fun free => ?_) ?_
  · rw [buffer, idx, content]
    exact locked.content
  · rw [buffer, idx]
    apply locked.spare
    rw [stages] at free
    by_cases same : reader = thread
    · rw [same, Function.update_self] at free
      rw [same]
      exact keeps.resolve_right fun taken => taken free
    · rwa [Function.update_of_ne same] at free
  · cases stage with
    | outside | writeLocking | writeLocked | writeUnlocking | readLocking | readLocked => exact told
    | inserting | flipping | readUnlocking | reading | clearing =>
      simp only [StageTold, idx, buffer] at told ⊢
      exact told

theorem Locked.called {op : BufferOp τ} (locked : Locked methods reader db atomic)
    (stepped : db.step methods pauses reader (.call thread op) = some next) :
    ∃ after, AtomicObject.Goes (BufferOp.apply methods) atomic [.call thread op] after ∧ Locked methods reader next after := by
  have told := locked.told thread
  simp only [LockedBuffer.step] at stepped
  cases here : db.stages thread with
  | outside =>
    rw [here] at told
    have free : (db.stages thread).taken = none := by rw [here]; rfl
    refine ⟨_, AtomicObject.goes_call told, ?_⟩
    cases op with
    | write value =>
      simp only [here, Option.some.injEq] at stepped
      subst stepped
      refine locked.quiet rfl rfl rfl rfl ?_ (.inl free) (fun other _ held => ⟨locked.flag held, rfl⟩) (fun held => ?_)
        (fun reads => ?_) ?_
      · exact fun other different => Function.update_of_ne different ..
      · cases held
      · cases reads
      · exact Function.update_self ..
    | read =>
      simp only [here, Option.ite_none_right_eq_some, Option.some.injEq] at stepped
      obtain ⟨mine, rfl⟩ := stepped
      refine locked.quiet rfl rfl rfl rfl ?_ (.inl free) (fun other _ held => ⟨locked.flag held, rfl⟩) (fun held => ?_)
        (fun _ => mine) ?_
      · exact fun other different => Function.update_of_ne different ..
      · cases held
      · exact Function.update_self ..
  | _ => simp [here] at stepped

private theorem Locked.writeLocking {value : τ} {spin : SpinStage} (locked : Locked methods reader db atomic)
    (here : db.stages thread = .writeLocking value spin) (advanced : db.advance methods pauses thread = some next) :
    Locked methods reader next atomic := by
  have told := locked.told thread
  rw [here] at told
  have free : (db.stages thread).taken = none := by rw [here]; rfl
  cases spun : lockStep pauses db.flag spin with
  | some spin' =>
    simp only [LockedBuffer.advance, here, spun, Option.some.injEq] at advanced
    subst advanced
    refine locked.quiet rfl rfl rfl rfl (fun _ _ => rfl) (.inl free)
      (fun other _ held => ⟨locked.flag held, rfl⟩) (fun held => ?_) (fun reads => ?_) told
    · cases held
    · cases reads
  | none =>
    simp only [LockedBuffer.advance, here, spun, Option.some.injEq] at advanced
    subst advanced
    refine locked.quiet rfl rfl rfl rfl (fun _ _ => rfl) (.inl free)
      (fun other _ held => absurd held (locked.spins spun other)) (fun _ => rfl) (fun reads => ?_) told
    cases reads

private theorem Locked.writeLocked {value : τ} (locked : Locked methods reader db atomic)
    (here : db.stages thread = .writeLocked value) (advanced : db.advance methods pauses thread = some next) :
    Locked methods reader next atomic := by
  have told := locked.told thread
  rw [here] at told
  have free : (db.stages thread).taken = none := by rw [here]; rfl
  have held : (db.stages thread).holds = true := by rw [here]; rfl
  simp only [LockedBuffer.advance, here, Option.some.injEq] at advanced
  subst advanced
  refine locked.quiet rfl rfl rfl rfl (fun _ _ => rfl) (.inl free)
    (fun other different also => absurd also (locked.alone held different)) (fun _ => locked.flag held) (fun reads => ?_)
    ⟨told, rfl⟩
  cases reads

private theorem Locked.inserting {value : τ} {idx : Bool} (locked : Locked methods reader db atomic)
    (here : db.stages thread = .inserting value idx) (advanced : db.advance methods pauses thread = some next) :
    ∃ after, AtomicObject.Goes (BufferOp.apply methods) atomic [] after ∧ Locked methods reader next after := by
  have told := locked.told thread
  rw [here] at told
  obtain ⟨called, rfl⟩ := told
  have free : (db.stages thread).taken = none := by rw [here]; rfl
  have held : (db.stages thread).holds = true := by rw [here]; rfl
  simp only [LockedBuffer.advance, here, Option.some.injEq] at advanced
  subst advanced
  refine ⟨_, AtomicObject.goes_effect called, locked.move rfl ?_ (fun _ _ _ => rfl) (fun _ _ _ => ?_)
    (fun other different also => absurd also (locked.alone held different)) (fun _ => locked.flag held) (fun reads => ?_) ?_
    (fun spare => ?_) ?_⟩
  · exact fun other different => Function.update_of_ne different ..
  · simp [LockedBuffer.set, LockedBuffer.setBuffer]
  · cases reads
  · simp [LockedBuffer.set, LockedBuffer.setBuffer, AtomicObject.set, BufferOp.apply, locked.content, BufferMethods.ofList]
  · have before : (db.stages reader).taken = none := by
      by_cases same : reader = thread
      · rw [same]
        exact free
      · simpa [LockedBuffer.set, LockedBuffer.setBuffer, Function.update_of_ne same] using spare
    simpa [LockedBuffer.set, LockedBuffer.setBuffer] using locked.spare before
  · exact Function.update_self ..

private theorem Locked.writeUnlocking (locked : Locked methods reader db atomic)
    (here : db.stages thread = .writeUnlocking) (advanced : db.advance methods pauses thread = some next) :
    ∃ after, AtomicObject.Goes (BufferOp.apply methods) atomic [.answer thread none] after ∧ Locked methods reader next after := by
  have told := locked.told thread
  rw [here] at told
  have free : (db.stages thread).taken = none := by rw [here]; rfl
  have held : (db.stages thread).holds = true := by rw [here]; rfl
  simp only [LockedBuffer.advance, here, Option.some.injEq] at advanced
  subst advanced
  refine ⟨_, AtomicObject.goes_answer told, locked.quiet rfl rfl rfl rfl ?_ (.inl free)
    (fun other different also => absurd also (locked.alone held different)) (fun held => ?_) (fun reads => ?_) ?_⟩
  · exact fun other different => Function.update_of_ne different ..
  · cases held
  · cases reads
  · exact Function.update_self ..

private theorem Locked.readLocking {spin : SpinStage} (locked : Locked methods reader db atomic)
    (here : db.stages thread = .readLocking spin) (advanced : db.advance methods pauses thread = some next) :
    Locked methods reader next atomic := by
  have told := locked.told thread
  rw [here] at told
  have free : (db.stages thread).taken = none := by rw [here]; rfl
  have only : thread = reader := locked.only (by rw [here]; rfl)
  cases spun : lockStep pauses db.flag spin with
  | some spin' =>
    simp only [LockedBuffer.advance, here, spun, Option.some.injEq] at advanced
    subst advanced
    refine locked.quiet rfl rfl rfl rfl (fun _ _ => rfl) (.inl free)
      (fun other _ held => ⟨locked.flag held, rfl⟩) (fun held => ?_) (fun _ => only) told
    cases held
  | none =>
    simp only [LockedBuffer.advance, here, spun, Option.some.injEq] at advanced
    subst advanced
    exact locked.quiet rfl rfl rfl rfl (fun _ _ => rfl) (.inl free)
      (fun other _ held => absurd held (locked.spins spun other)) (fun _ => rfl) (fun _ => only) told

private theorem Locked.readLocked (locked : Locked methods reader db atomic)
    (here : db.stages thread = .readLocked) (advanced : db.advance methods pauses thread = some next) :
    Locked methods reader next atomic := by
  have told := locked.told thread
  rw [here] at told
  have free : (db.stages thread).taken = none := by rw [here]; rfl
  have only : thread = reader := locked.only (by rw [here]; rfl)
  have held : (db.stages thread).holds = true := by rw [here]; rfl
  simp only [LockedBuffer.advance, here, Option.some.injEq] at advanced
  subst advanced
  exact locked.quiet rfl rfl rfl rfl (fun _ _ => rfl) (.inl free)
    (fun other different also => absurd also (locked.alone held different)) (fun _ => locked.flag held) (fun _ => only)
    ⟨told, rfl⟩

private theorem Locked.flipping {idx : Bool} (locked : Locked methods reader db atomic)
    (here : db.stages thread = .flipping idx) (advanced : db.advance methods pauses thread = some next) :
    ∃ after, AtomicObject.Goes (BufferOp.apply methods) atomic [] after ∧ Locked methods reader next after := by
  have told := locked.told thread
  rw [here] at told
  obtain ⟨called, rfl⟩ := told
  have free : (db.stages thread).taken = none := by rw [here]; rfl
  have only : thread = reader := locked.only (by rw [here]; rfl)
  have held : (db.stages thread).holds = true := by rw [here]; rfl
  have spare := locked.spare (only ▸ free)
  simp only [LockedBuffer.advance, here, Option.some.injEq] at advanced
  subst advanced
  -- the whole list goes to the reader
  refine ⟨_, AtomicObject.goes_effect called, locked.move rfl ?_ (fun other different noticed => ?_)
    (fun other different some_taken => ?_) (fun other different also => absurd also (locked.alone held different))
    (fun _ => locked.flag held) (fun _ => only) ?_ (fun unused => ?_) ?_⟩
  · exact fun other different => Function.update_of_ne different ..
  · rcases noticed with also | some_taken
    · exact absurd also (locked.alone held different)
    · exact absurd (only ▸ locked.only (reads_of_taken some_taken)) different
  · exact absurd (only ▸ locked.only (reads_of_taken some_taken)) different
  · exact spare
  · simp [LockedBuffer.set, only, BufferStage.taken] at unused
  · simp [LockedBuffer.set, AtomicObject.set, StageTold, BufferOp.apply, locked.content]

private theorem Locked.readUnlocking {idx : Bool} (locked : Locked methods reader db atomic)
    (here : db.stages thread = .readUnlocking idx) (advanced : db.advance methods pauses thread = some next) :
    Locked methods reader next atomic := by
  have told := locked.told thread
  rw [here] at told
  have only : thread = reader := locked.only (by rw [here]; rfl)
  have held : (db.stages thread).holds = true := by rw [here]; rfl
  simp only [LockedBuffer.advance, here, Option.some.injEq] at advanced
  subst advanced
  refine locked.quiet rfl rfl rfl rfl (fun _ _ => rfl) (.inr (Option.some_ne_none _))
    (fun other different also => absurd also (locked.alone held different)) (fun held => ?_) (fun _ => only) told
  cases held

private theorem Locked.reading {idx : Bool} (locked : Locked methods reader db atomic)
    (here : db.stages thread = .reading idx) (advanced : db.advance methods pauses thread = some next) :
    Locked methods reader next atomic := by
  have told := locked.told thread
  rw [here] at told
  have only : thread = reader := locked.only (by rw [here]; rfl)
  simp only [LockedBuffer.advance, here, Option.some.injEq] at advanced
  subst advanced
  refine locked.quiet rfl rfl rfl rfl (fun _ _ => rfl) (.inr (Option.some_ne_none _))
    (fun other _ held => ⟨locked.flag held, rfl⟩) (fun held => ?_) (fun _ => only) told
  cases held

private theorem Locked.clearing {idx : Bool} {shown : γ} (locked : Locked methods reader db atomic)
    (here : db.stages thread = .clearing idx shown) (advanced : db.advance methods pauses thread = some next) :
    ∃ after, AtomicObject.Goes (BufferOp.apply methods) atomic [.answer thread (some shown)] after ∧ Locked methods reader next after := by
  have told := locked.told thread
  rw [here] at told
  obtain ⟨done, rfl⟩ := told
  have only : thread = reader := locked.only (by rw [here]; rfl)
  simp only [LockedBuffer.advance, here, Option.some.injEq] at advanced
  subst advanced
  refine ⟨_, AtomicObject.goes_answer done, locked.move rfl ?_ (fun _ _ _ => rfl) (fun other different some_taken => ?_)
    (fun other _ held => ⟨locked.flag held, rfl⟩) (fun held => ?_) (fun reads => ?_) ?_ (fun _ => ?_) ?_⟩
  · exact fun other different => Function.update_of_ne different ..
  · exact absurd (only ▸ locked.only (reads_of_taken some_taken)) different
  · cases held
  · cases reads
  · simpa [LockedBuffer.set, LockedBuffer.setBuffer, AtomicObject.set] using locked.content
  · exact Function.update_self ..
  · exact Function.update_self ..

theorem Locked.advance (locked : Locked methods reader db atomic) (advanced : db.advance methods pauses thread = some next) :
    ∃ after, AtomicObject.Goes (BufferOp.apply methods) atomic (db.seen (.advance thread)) after ∧
      Locked methods reader next after := by
  simp only [LockedBuffer.seen]
  cases here : db.stages thread with
  | outside => simp [LockedBuffer.advance, here] at advanced
  | writeLocking value spin => exact ⟨atomic, .refl atomic, locked.writeLocking here advanced⟩
  | writeLocked value => exact ⟨atomic, .refl atomic, locked.writeLocked here advanced⟩
  | inserting value idx => exact locked.inserting here advanced
  | writeUnlocking => exact locked.writeUnlocking here advanced
  | readLocking spin => exact ⟨atomic, .refl atomic, locked.readLocking here advanced⟩
  | readLocked => exact ⟨atomic, .refl atomic, locked.readLocked here advanced⟩
  | flipping idx => exact locked.flipping here advanced
  | readUnlocking idx => exact ⟨atomic, .refl atomic, locked.readUnlocking here advanced⟩
  | reading idx => exact ⟨atomic, .refl atomic, locked.reading here advanced⟩
  | clearing idx shown => exact locked.clearing here advanced

theorem Locked.step {action : LockedBufferAction ρ τ} (locked : Locked methods reader db atomic)
    (stepped : db.step methods pauses reader action = some next) :
    ∃ after, AtomicObject.Goes (BufferOp.apply methods) atomic (db.seen action) after ∧ Locked methods reader next after := by
  cases action with
  | call thread op => exact locked.called stepped
  | advance thread => exact locked.advance stepped

/-- With either lock, whatever the threads do in whatever order their steps come: the calls and answers
are those of a list to which writes add and which a read takes whole; at most one thread holds the
lock; and nobody writes to the buffer that is read. -/
theorem double_buffer_linearizable (methods : BufferMethods γ τ) (pauses : Bool) (reader : ρ)
    (actions : List (LockedBufferAction ρ τ)) (final : LockedBuffer ρ γ τ)
    (ran : actions.foldlM (LockedBuffer.step methods pauses reader) (.initial methods) = some final) :
    AtomicObject.Admits (BufferOp.apply methods) []
        (history (LockedBuffer.step methods pauses reader) LockedBuffer.seen (.initial methods) actions) ∧
      final.Apart := by
  constructor
  · exact AtomicObject.admits_of_simulates (Locked methods reader) (fun locked _ stepped => locked.step stepped) locked_initial
      (eachStep_true _ actions) ran
  · have kept := (Run.of_foldlM ran).invariant (fun db => ∃ atomic, Locked methods reader db atomic)
      (fun kept stepped => by
        obtain ⟨atomic, locked⟩ := kept
        obtain ⟨after, -, kept⟩ := locked.step stepped
        exact ⟨after, kept⟩) ⟨_, locked_initial⟩
    obtain ⟨atomic, locked⟩ := kept
    exact locked.apart

/-- The reader comes while one writer has the lock and another spins. -/
def readBetweenWrites : List (LockedBufferAction (Fin 3) Nat) :=
  [.call 0 (.write 7), .advance 0, .call 1 (.write 8), .advance 1, .call 2 .read, .advance 0, .advance 2, .advance 0, .advance 0,
    .advance 2, .advance 1, .advance 2, .advance 2, .advance 2, .advance 2, .advance 1, .advance 1, .advance 1, .advance 2,
    .advance 1, .advance 2]

theorem readBetweenWrites_admitted :
    ∃ final, readBetweenWrites.foldlM (LockedBuffer.step (.list Nat) true 2) (.initial (.list Nat)) = some final ∧
      AtomicObject.Admits (BufferOp.apply (.list Nat)) []
        (history (LockedBuffer.step (.list Nat) true 2) LockedBuffer.seen (.initial (.list Nat)) readBetweenWrites) ∧
      final.Apart := by
  obtain ⟨final, ran⟩ : ∃ final, readBetweenWrites.foldlM (LockedBuffer.step (.list Nat) true 2) (.initial (.list Nat)) =
      some final := ⟨_, rfl⟩
  exact ⟨final, ran, double_buffer_linearizable (.list Nat) true 2 readBetweenWrites final ran⟩

end Proofs
end Cassobee
