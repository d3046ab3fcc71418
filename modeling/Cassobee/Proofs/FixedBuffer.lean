import Cassobee.Proofs.RingBuffer

/-! The fixed buffer is a bounded queue of bytes as long as nothing has to move up when it is read. -/

namespace Cassobee.Proofs
open Support FixedBuffer

variable {N : Nat}

/-- The bytes from the start of the array to the cursor. -/
def contentOf (buffer : FixedBuffer N) : List UInt8 := buffer.data.toList.take buffer.cursor

/-- The buffer has the unread bytes in their order. -/
structure HoldsUnread (buffer : FixedBuffer N) (queue : BoundedQueue UInt8 N) : Prop where
  content : contentOf buffer = queue.items
  size : buffer.size = queue.items.length
  freeSpace : buffer.freeSpace = N - queue.items.length

/-- What is left of the content after its first `length` bytes is what it begins with. -/
def Repeats (buffer : FixedBuffer N) (length : Nat) : Prop :=
  (contentOf buffer).drop length = (contentOf buffer).take (buffer.size - length)

/-- A read leaves the right bytes in the buffer. -/
def ReadKeeps (buffer : FixedBuffer N) : QueueAction UInt8 → Prop
  | .read length => Repeats buffer length
  | .readStream _ length => Repeats buffer length
  | .write _ => True
  | .reset => True

variable {buffer next : FixedBuffer N} {queue : BoundedQueue UInt8 N}

theorem HoldsUnread.of_content (content : contentOf buffer = queue.items) (size : buffer.size = queue.items.length) :
    HoldsUnread buffer queue where
  content := content
  size := size
  freeSpace := by rw [FixedBuffer.freeSpace, ← size, FixedBuffer.size]

theorem HoldsUnread.getElem? (holds : HoldsUnread buffer queue) {i : Nat} (inside : i < queue.items.length) :
    buffer.data[i]? = queue.items[i]? := by
  have size : buffer.cursor = queue.items.length := holds.size
  rw [← holds.content, contentOf, List.getElem?_take_of_lt (by omega), Vector.getElem?_toList]

theorem holdsUnread_reset (buffer : FixedBuffer N) : HoldsUnread buffer.reset BoundedQueue.empty :=
  .of_content (by simp [contentOf, reset]) rfl

theorem HoldsUnread.write (holds : HoldsUnread buffer queue) (src : List UInt8) :
    ∃ next, buffer.write src = some (min src.length (N - queue.items.length), next) ∧ HoldsUnread next (queue.write src) := by
  have size : buffer.cursor = queue.items.length := holds.size
  have bounded := queue.bounded
  have counted : (if src.length > buffer.freeSpace then buffer.freeSpace else src.length) =
      min src.length (N - queue.items.length) := by
    rw [holds.freeSpace]
    split <;> omega
  obtain ⟨length, written⟩ : ∃ k, min src.length (N - queue.items.length) = k := ⟨_, rfl⟩
  have taken : src.take length = src.take (N - queue.items.length) := by
    rw [List.take_eq_take_iff]
    omega
  rw [FixedBuffer.write, counted, written]
  by_cases more : length > 0
  · have sized : (src.take length).length = length := List.length_take_of_le (by omega)
    have room : buffer.cursor + (src.take length).length ≤ N := by omega
    obtain ⟨data, copied, placed⟩ := copyIn_spec buffer.data room
    refine ⟨{ data, cursor := buffer.cursor + length }, by simp [more, copied], .of_content ?_ ?_⟩
    · apply List.ext_getElem?
      intro i
      rw [contentOf, BoundedQueue.items_write, ← taken]
      by_cases inside : i < buffer.cursor + length
      · rw [List.getElem?_take_of_lt inside, Vector.getElem?_toList, placed, sized]
        by_cases old : i < queue.items.length
        · rw [if_neg (by omega), holds.getElem? old, List.getElem?_append_left old]
        · rw [if_pos (by omega), List.getElem?_append_right (by omega), size]
      · rw [List.getElem?_take_eq_none (Nat.le_of_not_lt inside), List.getElem?_eq_none]
        simp only [List.length_append, sized]
        omega
    · simp only [FixedBuffer.size, BoundedQueue.items_write, List.length_append, List.length_take]
      omega
  · obtain rfl : length = 0 := by omega
    refine ⟨buffer, by simp, .of_content ?_ ?_⟩
    · rw [BoundedQueue.items_write, ← taken, List.take_zero, List.append_nil, holds.content]
    · rw [BoundedQueue.items_write, ← taken, List.take_zero, List.append_nil, holds.size]

/-- A read answers right, and only moves the cursor back. -/
theorem HoldsUnread.readTo (holds : HoldsUnread buffer queue) (dest : List UInt8) (length : Nat) :
    buffer.readTo dest length = some (min length queue.items.length, dest ++ queue.items.take length,
      { buffer with cursor := buffer.cursor - length }) := by
  have size : buffer.cursor = queue.items.length := holds.size
  have bounded := queue.bounded
  have counted : (if length > buffer.cursor then buffer.cursor else length) = min length queue.items.length := by
    rw [size]
    split <;> omega
  obtain ⟨count, read⟩ : ∃ k, min length queue.items.length = k := ⟨_, rfl⟩
  have taken : queue.items.take length = queue.items.take count := read ▸ List.take_eq_take_min
  have moved : buffer.cursor - count = buffer.cursor - length := by omega
  rw [FixedBuffer.readTo, counted, read, taken, ← moved]
  by_cases more : count > 0
  · have copied : copyOut buffer.data 0 count = some (queue.items.take count) := by
      apply copyOut_spec buffer.data (by omega) (List.length_take_of_le (by omega))
      intro i inside
      rw [Nat.zero_add, holds.getElem? (by omega), List.getElem?_take_of_lt inside]
    simp [more, copied]
  · obtain rfl : count = 0 := by omega
    simp

/-- After a read the unread bytes are in the buffer if and only if it begins with them already. -/
theorem HoldsUnread.read_iff (holds : HoldsUnread buffer queue) (length : Nat) :
    HoldsUnread { buffer with cursor := buffer.cursor - length } (queue.read length) ↔ Repeats buffer length := by
  have size : buffer.cursor = queue.items.length := holds.size
  have kept : contentOf { buffer with cursor := buffer.cursor - length } =
      (contentOf buffer).take (buffer.cursor - length) := by
    rw [contentOf, contentOf, List.take_take, Nat.min_eq_left (Nat.sub_le ..)]
  have left : (queue.read length).items = (contentOf buffer).drop length := by
    rw [BoundedQueue.items_read, holds.content]
  constructor
  · intro after
    rw [Repeats, ← left, ← after.content, kept, FixedBuffer.size]
  · intro repeats
    apply HoldsUnread.of_content
    · rw [kept, left]
      exact repeats.symm
    · rw [BoundedQueue.items_read, List.length_drop, ← size, FixedBuffer.size]

theorem HoldsUnread.readStream (holds : HoldsUnread buffer queue) (stream : List UInt8) (length : Nat) :
    buffer.perform (.readStream stream length) =
      some ((queue.perform (.readStream stream length)).1, { buffer with cursor := buffer.cursor - length }) := by
  rw [FixedBuffer.perform, FixedBuffer.readStream, holds.readTo]
  rfl

theorem HoldsUnread.perform (holds : HoldsUnread buffer queue) {action : QueueAction UInt8}
    (keeps : ReadKeeps buffer action) :
    ∃ next, buffer.perform action = some ((queue.perform action).1, next) ∧ HoldsUnread next (queue.perform action).2 := by
  cases action with
  | write src =>
    obtain ⟨next, computed, after⟩ := holds.write src
    refine ⟨next, ?_, after⟩
    rw [FixedBuffer.perform, computed]
    rfl
  | read length => exact ⟨_, holds.readStream [] length, (holds.read_iff length).2 keeps⟩
  | readStream stream length => exact ⟨_, holds.readStream stream length, (holds.read_iff length).2 keeps⟩
  | reset => exact ⟨buffer.reset, rfl, holdsUnread_reset buffer⟩

theorem HoldsUnread.needs (holds : HoldsUnread buffer queue) {action : QueueAction UInt8}
    (after : ∀ answer next, buffer.perform action = some (answer, next) → HoldsUnread next (queue.perform action).2) :
    ReadKeeps buffer action := by
  cases action with
  | write => trivial
  | reset => trivial
  | read length =>
    apply (holds.read_iff length).1
    exact after _ _ (holds.readStream [] length)
  | readStream stream length =>
    apply (holds.read_iff length).1
    exact after _ _ (holds.readStream stream length)

/-- The buffer is the queue that it is meant to be exactly as long as each read leaves what the array begins
with. -/
theorem fixed_buffer_refines_iff (N : Nat) (actions : List (QueueAction UInt8)) :
    Refines FixedBuffer.perform BoundedQueue.perform HoldsUnread (create (N := N), BoundedQueue.empty) actions ↔
      EachBeside FixedBuffer.perform BoundedQueue.perform (fun buffer _ action => ReadKeeps buffer action)
        (create (N := N), (BoundedQueue.empty : BoundedQueue UInt8 N)) actions := by
  apply refines_iff_eachStep (fun holds => holds)
  · exact fun holds => holds.perform
  · exact fun holds _ => holds.needs
  · exact holdsUnread_reset create

/-- Two bytes are written and read one by one: the first one comes twice. -/
theorem first_byte_twice :
    ¬ Refines FixedBuffer.perform BoundedQueue.perform HoldsUnread (create, (BoundedQueue.empty : BoundedQueue UInt8 2))
      [.write [1, 2], .read 1, .read 1] := by
  rintro ⟨answers, -⟩
  have last := ((answers.2 _ rfl).2 _ rfl).1
  revert last
  unfold SameAnswer
  decide

end Cassobee.Proofs
