import Cassobee.DoubleBuffer
import Mathlib.Data.Finset.Dedup

/-! What the reader of a double buffer is shown. -/

namespace Cassobee

namespace DoubleBuffer
variable {γ τ : Type}

/-- No write lands in the buffer that is visited or cleared. -/
def Apart (db : DoubleBuffer γ τ) : Prop := ∀ idx, db.reader.taken = some idx → idx ≠ db.writeidx

/-- The batches that the callback was shown. -/
def visited (db : DoubleBuffer γ τ) : List (List τ) :=
  match db.reader with
  | .swapped _ => db.batches.dropLast
  | _ => db.batches

/-- The steps of a `read` with the writes that come between them. -/
def readSteps (meanwhile later : List τ) : List (BufferAction τ) :=
  .read :: meanwhile.map .write ++ .read :: later.map .write ++ [.read]

/-- Every value was visited, or is in one of the buffers, and that in the order of the writes. A `read` visits
all that was written before its swap, and leaves what is written during it. -/
structure DeliversInOrder (db : DoubleBuffer (List τ) τ) : Prop where
  apart : db.Apart
  written : db.batches.flatten ++ db.since = db.written
  visits : db.visits = db.visited
  reads (meanwhile later : List τ) {after : DoubleBuffer (List τ) τ} : db.reader = .idle →
    (readSteps meanwhile later).foldl (step (.list τ)) db = after →
    after.reader = .idle ∧ after.writeidx = (!db.writeidx) ∧ after.visits.flatten = db.written ∧
      after.buffer after.writeidx = meanwhile ++ later ∧ after.buffer db.writeidx = []
  idle : db.reader = .idle → db.visits.flatten ++ db.buffer db.writeidx = db.written ∧ db.buffer (!db.writeidx) = []
  swapped (idx : Bool) : db.reader = .swapped idx → db.visits.flatten ++ db.buffer idx ++ db.buffer db.writeidx = db.written
  visited (idx : Bool) : db.reader = .visited idx → db.visits.flatten ++ db.buffer db.writeidx = db.written

/-- Every visit is of the set of what was written between two swaps, and every `read` has one. -/
structure DeliversSets [DecidableEq τ] (db : DoubleBuffer (Finset τ) τ) : Prop where
  apart : db.Apart
  written : db.batches.flatten ++ db.since = db.written
  visits : db.visits = db.visited.map List.toFinset
  waiting (idx : Bool) : db.reader = .swapped idx → db.buffer idx = (db.batches.getLast?.getD []).toFinset
  writing : db.buffer db.writeidx = db.since.toFinset
  reads (meanwhile later : List τ) {after : DoubleBuffer (Finset τ) τ} : db.reader = .idle →
    (readSteps meanwhile later).foldl (step (.set τ)) db = after →
    after.reader = .idle ∧ after.writeidx = (!db.writeidx) ∧ after.visits = db.visits ++ [db.since.toFinset] ∧
      after.buffer after.writeidx = (meanwhile ++ later).toFinset ∧ after.buffer db.writeidx = ∅

end DoubleBuffer

namespace Proofs
open DoubleBuffer

variable {γ τ : Type} {methods : BufferMethods γ τ}

/-- What the other buffer holds, and what was visited, at each phase of the reader. -/
def PhaseHolds (methods : BufferMethods γ τ) (db : DoubleBuffer γ τ) : ReadPhase → Prop
  | .idle => db.buffer (!db.writeidx) = methods.empty ∧ db.visits = db.batches.map methods.ofList
  | .swapped idx => idx = (!db.writeidx) ∧ ∃ earlier last, db.batches = earlier ++ [last] ∧ db.buffer idx = methods.ofList last ∧
      db.visits = earlier.map methods.ofList
  | .visited idx => idx = (!db.writeidx) ∧ db.visits = db.batches.map methods.ofList

structure Delivering (methods : BufferMethods γ τ) (db : DoubleBuffer γ τ) : Prop where
  writing : db.buffer db.writeidx = methods.ofList db.since
  written : db.batches.flatten ++ db.since = db.written
  phase : PhaseHolds methods db db.reader

theorem delivering_initial : Delivering methods (.initial methods) := ⟨rfl, rfl, rfl, rfl⟩

theorem ofList_concat (values : List τ) (value : τ) :
    methods.ofList (values ++ [value]) = methods.insert (methods.ofList values) value := by
  simp [BufferMethods.ofList]

namespace Delivering
variable {db : DoubleBuffer γ τ}

theorem apart (delivering : Delivering methods db) : db.Apart := by
  have phase := delivering.phase
  intro idx taken
  cases reader : db.reader with
  | idle =>
    rw [reader] at taken
    cases taken
  | swapped old | visited old =>
    rw [reader] at phase taken
    cases taken
    rw [phase.1]
    exact Bool.not_ne_self _

theorem write (delivering : Delivering methods db) (value : τ) : Delivering methods (db.write methods value) := by
  obtain ⟨writing, written, phase⟩ := delivering
  have other : Function.update db.buffer db.writeidx (methods.insert (db.buffer db.writeidx) value) (!db.writeidx) =
      db.buffer (!db.writeidx) := Function.update_of_ne (Bool.not_ne_self _) _ _
  refine ⟨?_, ?_, ?_⟩
  · simp only [DoubleBuffer.write, Function.update_self, writing, ofList_concat]
  · simp only [DoubleBuffer.write, ← written, List.append_assoc]
  · simp only [DoubleBuffer.write]
    cases reader : db.reader with
    | idle =>
      rw [reader] at phase
      exact ⟨other.trans phase.1, phase.2⟩
    | swapped idx =>
      rw [reader] at phase
      obtain ⟨rfl, earlier, last, batches, buffer, visits⟩ := phase
      exact ⟨rfl, earlier, last, batches, other.trans buffer, visits⟩
    | visited idx =>
      rw [reader] at phase
      exact phase

theorem read (delivering : Delivering methods db) : Delivering methods (db.read methods) := by
  obtain ⟨writing, written, phase⟩ := delivering
  rw [DoubleBuffer.read]
  cases reader : db.reader with
  | idle =>
    rw [reader] at phase
    refine ⟨phase.1, ?_, (Bool.not_not _).symm, db.batches, db.since, rfl, writing, phase.2⟩
    simpa using written
  | swapped idx =>
    rw [reader] at phase
    obtain ⟨rfl, earlier, last, batches, buffer, visits⟩ := phase
    refine ⟨writing, written, rfl, ?_⟩
    simp [batches, visits, buffer]
  | visited idx =>
    rw [reader] at phase
    obtain ⟨rfl, visits⟩ := phase
    refine ⟨?_, written, Function.update_self .., visits⟩
    simp only [Function.update_of_ne (Bool.not_ne_self db.writeidx).symm]
    exact writing

theorem run (delivering : Delivering methods db) (actions : List (BufferAction τ)) :
    Delivering methods (actions.foldl (DoubleBuffer.step methods) db) := by
  induction actions generalizing db with
  | nil => exact delivering
  | cons action actions ih =>
    cases action with
    | write value => exact ih (delivering.write value)
    | read => exact ih delivering.read

theorem read_idle (idle : db.reader = .idle) : db.read methods = { db with
    writeidx := !db.writeidx, reader := .swapped db.writeidx, batches := db.batches ++ [db.since], since := [] } := by
  rw [DoubleBuffer.read, idle]

theorem writes (db : DoubleBuffer γ τ) (values : List τ) :
    ∃ buffer, (values.map .write).foldl (DoubleBuffer.step methods) db =
      { db with buffer, written := db.written ++ values, since := db.since ++ values } := by
  induction values generalizing db with
  | nil => exact ⟨db.buffer, by simp⟩
  | cons value values ih =>
    obtain ⟨buffer, same⟩ := ih (db.write methods value)
    refine ⟨buffer, same.trans ?_⟩
    simp [DoubleBuffer.write]

/-- The swap, the callback and the clearing, with the writes behind the first two. -/
theorem run_readSteps (idle : db.reader = .idle) (meanwhile later : List τ) {after : DoubleBuffer γ τ}
    (ran : (readSteps meanwhile later).foldl (DoubleBuffer.step methods) db = after) :
    after.reader = .idle ∧ after.writeidx = (!db.writeidx) ∧ after.batches = db.batches ++ [db.since] ∧
      after.since = meanwhile ++ later := by
  simp only [readSteps, List.cons_append, List.foldl_cons, List.foldl_append, DoubleBuffer.step, List.foldl_nil] at ran
  obtain ⟨shown, first⟩ := @writes _ _ methods (db.read methods) meanwhile
  rw [first, read_idle idle] at ran
  obtain ⟨left, second⟩ := @writes _ _ methods _ later
  rw [second] at ran
  subst ran
  exact ⟨rfl, rfl, rfl, rfl⟩

theorem reads (delivering : Delivering methods db) (idle : db.reader = .idle) (meanwhile later : List τ)
    {after : DoubleBuffer γ τ} (ran : (readSteps meanwhile later).foldl (DoubleBuffer.step methods) db = after) :
    after.reader = .idle ∧ after.writeidx = (!db.writeidx) ∧ after.visits = db.visits ++ [methods.ofList db.since] ∧
      after.buffer after.writeidx = methods.ofList (meanwhile ++ later) ∧ after.buffer db.writeidx = methods.empty := by
  obtain ⟨ended, swapped, batches, since⟩ := run_readSteps idle meanwhile later ran
  obtain ⟨writing, -, phase⟩ := ran ▸ delivering.run (readSteps meanwhile later)
  have before := delivering.phase
  rw [idle] at before
  rw [ended] at phase
  obtain ⟨empty, visits⟩ := phase
  rw [swapped, Bool.not_not] at empty
  rw [since] at writing
  rw [batches, List.map_append, ← before.2] at visits
  exact ⟨ended, swapped, visits, writing, empty⟩

end Delivering

/-- The reader leaves what was written as it is. -/
theorem written_run (db : DoubleBuffer γ τ) (actions : List (BufferAction τ)) :
    (actions.foldl (DoubleBuffer.step methods) db).written = db.written ++ actions.filterMap BufferAction.value := by
  induction actions generalizing db with
  | nil => simp
  | cons action actions ih =>
    rw [List.foldl_cons, ih]
    cases action with
    | write value => simp [DoubleBuffer.step, DoubleBuffer.write, BufferAction.value]
    | read =>
      have kept : (db.read methods).written = db.written := by
        rw [DoubleBuffer.read]
        split <;> rfl
      rw [DoubleBuffer.step, kept, List.filterMap_cons_none rfl]

theorem Delivering.visited {db : DoubleBuffer γ τ} (delivering : Delivering methods db) :
    db.visits = db.visited.map methods.ofList := by
  have phase := delivering.phase
  rw [DoubleBuffer.visited]
  cases reader : db.reader with
  | idle | visited idx =>
    rw [reader] at phase
    exact phase.2
  | swapped idx =>
    rw [reader] at phase
    obtain ⟨-, earlier, last, batches, -, visits⟩ := phase
    rw [visits, batches, List.dropLast_concat]

theorem ofList_list (values : List τ) : (BufferMethods.list τ).ofList values = values := by
  induction values using List.reverseRecOn with
  | nil => rfl
  | append_singleton values value ih =>
    rw [ofList_concat, ih]
    rfl

theorem ofList_set [DecidableEq τ] (values : List τ) : (BufferMethods.set τ).ofList values = values.toFinset := by
  induction values using List.reverseRecOn with
  | nil => rfl
  | append_singleton values value ih =>
    rw [ofList_concat, ih]
    ext other
    simp only [BufferMethods.set, Finset.mem_insert, List.mem_toFinset, List.mem_append, List.mem_singleton]
    exact or_comm

theorem Delivering.inOrder {db : DoubleBuffer (List τ) τ} (delivering : Delivering (.list τ) db) : db.DeliversInOrder := by
  have apart := delivering.apart
  have reads := @delivering.reads
  have visited := delivering.visited
  obtain ⟨writing, written, phase⟩ := delivering
  have plain : (BufferMethods.list τ).ofList = id := funext ofList_list
  rw [plain, id] at writing
  rw [plain, List.map_id] at visited
  refine ⟨apart, written, visited, fun meanwhile later after idle ran => ?_, fun reader => ?_, fun idx reader => ?_,
    fun idx reader => ?_⟩
  · obtain ⟨ended, swapped, visits, left, cleared⟩ := reads idle meanwhile later ran
    rw [plain] at visits left
    refine ⟨ended, swapped, ?_, left, cleared⟩
    rw [visits, visited, DoubleBuffer.visited, idle, List.flatten_append, List.flatten_singleton]
    exact written
  · rw [reader] at phase
    obtain ⟨other, visits⟩ := phase
    rw [plain, List.map_id] at visits
    rw [visits, writing]
    exact ⟨written, other⟩
  · rw [reader] at phase
    obtain ⟨-, earlier, last, batches, buffer, visits⟩ := phase
    rw [plain, List.map_id] at visits
    rw [plain, id] at buffer
    rw [visits, writing, buffer, ← written, batches]
    simp
  · rw [reader] at phase
    obtain ⟨-, visits⟩ := phase
    rw [plain, List.map_id] at visits
    rw [visits, writing]
    exact written

theorem Delivering.sets [DecidableEq τ] {db : DoubleBuffer (Finset τ) τ} (delivering : Delivering (.set τ) db) : db.DeliversSets := by
  have apart := delivering.apart
  have reads := @delivering.reads
  have visited := delivering.visited
  obtain ⟨writing, written, phase⟩ := delivering
  have plain : (BufferMethods.set τ).ofList = List.toFinset := funext ofList_set
  rw [plain] at writing visited
  refine ⟨apart, written, visited, fun idx reader => ?_, writing, fun meanwhile later after idle ran => ?_⟩
  · rw [reader] at phase
    obtain ⟨-, earlier, last, batches, buffer, -⟩ := phase
    rw [buffer, plain, batches, List.getLast?_concat]
    rfl
  · obtain ⟨ended, swapped, visits, left, cleared⟩ := reads idle meanwhile later ran
    rw [plain] at visits left
    exact ⟨ended, swapped, visits, left, cleared⟩

/-- Every order of the writes and of the reader's steps: no value is lost or visited twice, and each `read` comes to
all that was written before it. -/
theorem double_buffer_delivers [DecidableEq τ] (actions : List (BufferAction τ)) :
    (actions.foldl (DoubleBuffer.step (.list τ)) (.initial (.list τ))).DeliversInOrder ∧
      (actions.foldl (DoubleBuffer.step (.list τ)) (.initial (.list τ))).written = actions.filterMap BufferAction.value ∧
      (actions.foldl (DoubleBuffer.step (.set τ)) (.initial (.set τ))).DeliversSets ∧
      (actions.foldl (DoubleBuffer.step (.set τ)) (.initial (.set τ))).written = actions.filterMap BufferAction.value :=
  ⟨(delivering_initial.run actions).inOrder, written_run _ actions, (delivering_initial.run actions).sets, written_run _ actions⟩

/-- 3 is written between the swap and the callback, and visited by the second `read`. -/
def writtenMeanwhile : List (BufferAction Nat) :=
  [.write 2, .write 1, .read, .write 3, .read, .write 1, .read, .read, .read, .read]

theorem writtenMeanwhile_delivered :
    (writtenMeanwhile.foldl (DoubleBuffer.step (.list Nat)) (.initial (.list Nat))).visits = [[2, 1], [3, 1]] ∧
      (writtenMeanwhile.foldl (DoubleBuffer.step (.set Nat)) (.initial (.set Nat))).visits = [{1, 2}, {1, 3}] ∧
      (writtenMeanwhile.foldl (DoubleBuffer.step (.list Nat)) (.initial (.list Nat))).DeliversInOrder :=
  ⟨by decide, by decide, (double_buffer_delivers writtenMeanwhile).1⟩

end Proofs
end Cassobee
