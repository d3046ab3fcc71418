import Cassobee.LeftRight
import Mathlib.Data.Finset.Card

/-! Readers and the writer of `left_right` keep apart. A reader is stale when it reads the instance to
which `_left_right` does not point; none becomes stale but by the writer's store. -/

namespace Cassobee

variable {ρ : Type} {n : Nat} {slot : ρ → Fin n}

/-- No reader uses the instance that the writer mutates. -/
def LeftRight.Exclusive (lr : LeftRight ρ n) : Prop :=
  ∀ thread version side, lr.readers thread = .reading version side → lr.writer.mutates ≠ some side

namespace Proofs

/-- The indicator on which a reader is counted. -/
def counted : ReaderStage → Option Bool
  | .arrived version | .reading version _ => some version
  | .idle | .loaded _ => none

/-- The readers that may still be stale: those whose counter the writer has not yet seen at zero. -/
def MayBeStale (slot : ρ → Fin n) : WriterStage → ρ → Bool → Prop
  | .stored _, _, _ => True
  | .scanningNext _ version idx, thread, on => on = (!version) → idx ≤ slot thread
  | .scanningPrevious _ version idx, thread, on => on = version ∧ idx ≤ slot thread
  | .idle, _, _ | .mutating _, _, _ | .mutatingOther _, _, _ => False

/-- What `_left_right` holds while the writer is at a stage. -/
def Agrees (leftRight : Side) : WriterStage → Prop
  | .idle => True
  | .mutating read => leftRight = read
  | .stored read | .scanningNext read _ _ | .scanningPrevious read _ _ | .mutatingOther read => leftRight = read.other

structure Guarded (slot : ρ → Fin n) (lr : LeftRight ρ n) : Prop where
  counters (version : Bool) (idx : Fin n) : ∃ here : Finset ρ,
    (∀ thread, thread ∈ here ↔ counted (lr.readers thread) = some version ∧ slot thread = idx) ∧ lr.counters version idx = here.card
  agrees : Agrees lr.leftRight lr.writer
  stale (thread : ρ) (version : Bool) (reads : lr.readers thread = .reading version lr.leftRight.other) :
    MayBeStale slot lr.writer thread version

theorem guarded_initial : Guarded slot .initial :=
  ⟨fun _ _ => ⟨∅, by simp [LeftRight.initial, counted], rfl⟩, trivial, fun _ _ reads => by cases reads⟩

theorem other_other (side : Side) : side.other.other = side := by
  cases side <;> rfl

theorem ne_other (side : Side) : side ≠ side.other := by
  cases side <;> decide

namespace Guarded
variable {lr : LeftRight ρ n}

theorem exclusive (guarded : Guarded slot lr) : lr.Exclusive := by
  intro thread version side reads mutates
  have agrees := guarded.agrees
  cases stage : lr.writer with
  | mutating read =>
    rw [stage] at mutates agrees
    cases mutates
    have stale := guarded.stale thread version (by rw [reads, show lr.leftRight = read from agrees])
    rwa [stage] at stale
  | mutatingOther read =>
    rw [stage] at mutates agrees
    cases mutates
    have stale := guarded.stale thread version
      (by rw [reads, show lr.leftRight = side.other from agrees, other_other])
    rwa [stage] at stale
  | idle | stored _ | scanningNext _ _ _ | scanningPrevious _ _ _ =>
    rw [stage] at mutates
    cases mutates

/-- A counter at zero has no reader. -/
theorem none_at_zero (guarded : Guarded slot lr) {thread : ρ} {version : Bool} (inside : counted (lr.readers thread) = some version) :
    0 < lr.counters version (slot thread) := by
  obtain ⟨here, member, count⟩ := guarded.counters version (slot thread)
  rw [count, Finset.card_pos]
  exact ⟨thread, (member thread).mpr ⟨inside, rfl⟩⟩

/-- The writer has looked at one more counter. -/
theorem scanned (guarded : Guarded slot lr) {thread : ρ} {version : Bool} {idx : Nat} (more : idx < n)
    (reads : lr.readers thread = .reading version lr.leftRight.other) (le : idx ≤ slot thread) :
    lr.scan version ⟨idx, more⟩ ≤ slot thread := by
  rw [LeftRight.scan]
  split
  next => exact Nat.zero_le _
  next zero =>
    have different : idx ≠ slot thread := by
      intro same
      have here : slot thread = ⟨idx, more⟩ := Fin.ext same.symm
      have positive := guarded.none_at_zero (show counted (lr.readers thread) = some version by rw [reads]; rfl)
      rw [here] at positive
      exact zero positive
    exact Nat.lt_of_le_of_ne le different

theorem writerStep (guarded : Guarded slot lr) : Guarded slot lr.writerStep := by
  obtain ⟨counters, agrees, stale⟩ := guarded
  rw [LeftRight.writerStep]
  split
  next stage =>
    rw [stage] at stale
    exact ⟨counters, rfl, stale⟩
  next read stage => exact ⟨counters, rfl, fun _ _ _ => trivial⟩
  next read stage =>
    rw [stage] at agrees
    exact ⟨counters, agrees, fun _ _ _ _ => Nat.zero_le _⟩
  next read version idx stage =>
    have old := stale
    rw [stage] at agrees old
    split
    next more =>
      exact ⟨counters, agrees, fun thread on reads same => same ▸ scanned ⟨counters, stage ▸ agrees, stale⟩ more (same ▸ reads)
        (old thread on reads same)⟩
    next done =>
      refine ⟨counters, agrees, fun thread on reads => ⟨?_, Nat.zero_le _⟩⟩
      by_contra different
      have le := old thread on reads (Bool.eq_not_of_ne different)
      have lt := (slot thread).isLt
      omega
  next read version idx stage =>
    have old := stale
    rw [stage] at agrees old
    split
    next more =>
      refine ⟨counters, agrees, fun thread on reads => ?_⟩
      obtain ⟨rfl, le⟩ := old thread on reads
      exact ⟨rfl, scanned ⟨counters, stage ▸ agrees, stale⟩ more reads le⟩
    next done =>
      refine ⟨counters, agrees, fun thread on reads => ?_⟩
      obtain ⟨-, le⟩ := old thread on reads
      have lt := (slot thread).isLt
      omega
  next read stage =>
    rw [stage] at stale
    exact ⟨counters, trivial, stale⟩

theorem counters_setCounter (version on : Bool) (at' idx : Fin n) (value : Nat) :
    (lr.setCounter version at' value).counters on idx = if on = version ∧ idx = at' then value else lr.counters on idx := by
  rw [LeftRight.setCounter]
  by_cases same : on = version
  · subst same
    by_cases here : idx = at'
    · simp [here]
    · simp [here]
  · simp [same]

variable [DecidableEq ρ]

/-- The reader becomes one that is not stale. -/
theorem stale_setReader (guarded : Guarded slot lr) {thread : ρ} {stage : ReaderStage}
    (fresh : ∀ version, stage ≠ .reading version lr.leftRight.other) {other : ρ} {version : Bool}
    (reads : Function.update lr.readers thread stage other = .reading version lr.leftRight.other) :
    MayBeStale slot lr.writer other version := by
  by_cases same : other = thread
  · rw [same, Function.update_self] at reads
    exact absurd reads (fresh version)
  · rw [Function.update_of_ne same] at reads
    exact guarded.stale other version reads

/-- A reader that is counted as before. -/
theorem move (guarded : Guarded slot lr) {thread : ρ} {stage : ReaderStage} (same : counted stage = counted (lr.readers thread))
    (fresh : ∀ version, stage ≠ .reading version lr.leftRight.other) : Guarded slot (lr.setReader thread stage) := by
  refine ⟨fun on idx => ?_, guarded.agrees, fun other version reads => guarded.stale_setReader fresh reads⟩
  obtain ⟨here, member, count⟩ := guarded.counters on idx
  refine ⟨here, fun other => ?_, count⟩
  rw [member]
  simp only [LeftRight.setReader]
  by_cases equal : other = thread
  · rw [equal, Function.update_self, same]
  · rw [Function.update_of_ne equal]

theorem arrive (guarded : Guarded slot lr) {thread : ρ} (version : Bool) (outside : counted (lr.readers thread) = none) :
    Guarded slot ((lr.setCounter version (slot thread) (lr.counters version (slot thread) + 1)).setReader thread (.arrived version)) := by
  refine ⟨fun on idx => ?_, guarded.agrees, fun other on reads => guarded.stale_setReader (fun _ => ReaderStage.noConfusion) reads⟩
  obtain ⟨here, member, count⟩ := guarded.counters on idx
  have absent : thread ∉ here := fun inside => by
    have := ((member thread).mp inside).1
    rw [outside] at this
    cases this
  simp only [LeftRight.setReader, counters_setCounter]
  by_cases now : on = version ∧ idx = slot thread
  · refine ⟨insert thread here, fun other => ?_, ?_⟩
    · rw [Finset.mem_insert, member]
      by_cases equal : other = thread
      · simp [equal, counted, now]
      · simp only [equal, false_or, Function.update_of_ne equal]
        rfl
    · rw [if_pos now, Finset.card_insert_of_notMem absent, ← count, now.1, now.2]
  · refine ⟨here, fun other => ?_, by rw [if_neg now, count]⟩
    rw [member]
    by_cases equal : other = thread
    · subst equal
      rw [outside, Function.update_self, counted]
      constructor
      · rintro ⟨impossible, -⟩
        cases impossible
      · rintro ⟨same, rfl⟩
        exact absurd ⟨(Option.some.inj same).symm, rfl⟩ now
    · rw [Function.update_of_ne equal]
      rfl

theorem depart (guarded : Guarded slot lr) {thread : ρ} {version : Bool} (inside : counted (lr.readers thread) = some version) :
    Guarded slot ((lr.setCounter version (slot thread) (lr.counters version (slot thread) - 1)).setReader thread .idle) := by
  refine ⟨fun on idx => ?_, guarded.agrees, fun other on reads => guarded.stale_setReader (fun _ => ReaderStage.noConfusion) reads⟩
  obtain ⟨here, member, count⟩ := guarded.counters on idx
  simp only [LeftRight.setReader, counters_setCounter]
  have gone (other : ρ) : other ∈ here.erase thread ↔
      counted (Function.update lr.readers thread .idle other) = some on ∧ slot other = idx := by
    rw [Finset.mem_erase, member]
    by_cases equal : other = thread
    · simp [equal, counted]
    · simp [equal, Function.update_of_ne]
  refine ⟨here.erase thread, gone, ?_⟩
  split
  next now =>
    have present : thread ∈ here := (member thread).mpr ⟨by rw [inside, now.1], now.2.symm⟩
    rw [Finset.card_erase_of_mem present, ← count, now.1, now.2]
  next elsewhere =>
    have absent : thread ∉ here := fun present => by
      obtain ⟨same, at'⟩ := (member thread).mp present
      rw [inside] at same
      exact elsewhere ⟨(Option.some.inj same).symm, at'.symm⟩
    rw [Finset.erase_eq_of_notMem absent]
    exact count

theorem readerStep (guarded : Guarded slot lr) (thread : ρ) : Guarded slot (lr.readerStep slot thread) := by
  rw [LeftRight.readerStep]
  split
  next stage => exact guarded.move (by rw [stage]; rfl) fun _ => ReaderStage.noConfusion
  next version stage => exact guarded.arrive version (by rw [stage]; rfl)
  next version stage =>
    refine guarded.move (by rw [stage]; rfl) fun on same => ?_
    exact ne_other lr.leftRight (ReaderStage.reading.inj same).2
  next version side stage => exact guarded.depart (by rw [stage]; rfl)

theorem run (guarded : Guarded slot lr) (actions : List (LeftRightAction ρ)) : Guarded slot (actions.foldl (LeftRight.step slot) lr) := by
  induction actions generalizing lr with
  | nil => exact guarded
  | cons action actions ih =>
    cases action with
    | reader thread => exact ih (guarded.readerStep thread)
    | writer => exact ih guarded.writerStep

end Guarded

/-- Whatever the readers and the writers do, in whatever order their steps come. -/
theorem left_right_exclusive [DecidableEq ρ] (slot : ρ → Fin n) (actions : List (LeftRightAction ρ)) :
    (actions.foldl (LeftRight.step slot) .initial).Exclusive :=
  (guarded_initial.run actions).exclusive

/-- The second mutation comes while a reader is on the new instance, and after the old one has left. -/
example : ([.reader 0, .reader 0, .reader 0, .writer, .writer, .writer, .writer, .writer, .reader 1, .writer, .reader 0, .reader 1, .reader 1,
      .writer, .writer].foldl (LeftRight.step fun _ => (0 : Fin 1)) (.initial : LeftRight (Fin 2) 1)).writer = .mutatingOther .left := by
  decide

end Proofs
end Cassobee
