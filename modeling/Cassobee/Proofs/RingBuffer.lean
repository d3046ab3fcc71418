import Cassobee.Buffers
import Cassobee.Support.Refinement
import Mathlib.Data.Nat.ModEq

/-! The ring buffer is a bounded queue of bytes. -/

namespace Cassobee.Proofs
open Support RingBuffer

variable {N : Nat}

/-! ## Copies -/

theorem copyIn_spec (data : Vector UInt8 N) {offset : Nat} {src : List UInt8} (fits : offset + src.length ≤ N) :
    ∃ copied, copyIn data offset src = some copied ∧
      ∀ k, copied[k]? = if offset ≤ k ∧ k < offset + src.length then src[k - offset]? else data[k]? := by
  refine ⟨_, if_pos fits, fun k => ?_⟩
  by_cases inside : k < N
  · rw [Vector.getElem?_eq_getElem inside, Vector.getElem_ofFn, Vector.getElem?_eq_getElem inside]
    by_cases before : offset ≤ k
    · by_cases covered : k < offset + src.length
      · have bound : k - offset < src.length := by omega
        have found : src[k - offset]? = some src[k - offset] := List.getElem?_eq_getElem bound
        simp [before, covered, found]
      · have behind : src[k - offset]? = none := List.getElem?_eq_none (by omega)
        simp [before, covered, behind]
    · simp [before]
  · have beyond : ¬ (offset ≤ k ∧ k < offset + src.length) := by omega
    rw [if_neg beyond, Vector.getElem?_eq_none (by omega), Vector.getElem?_eq_none (by omega)]

theorem copyOut_spec (data : Vector UInt8 N) {offset length : Nat} (fits : offset + length ≤ N) {bytes : List UInt8}
    (sized : bytes.length = length) (same : ∀ i < length, data[offset + i]? = bytes[i]?) :
    copyOut data offset length = some bytes := by
  rw [copyOut, if_pos fits, Option.some.injEq]
  apply List.ext_getElem?
  intro i
  by_cases inside : i < length
  · rw [List.getElem?_take_of_lt inside, List.getElem?_drop, ← same i inside, Vector.getElem?_toList]
  · rw [List.getElem?_take_eq_none (by omega), List.getElem?_eq_none (by omega)]

/-! ## Indices that wrap around -/

theorem wrapped_add {base step : Nat} (inside : base % N + step < N) : (base + step) % N = base % N + step := by
  rw [← Nat.mod_add_mod, Nat.mod_eq_of_lt inside]

theorem wrapped_inj {base one two : Nat} (first : one < N) (second : two < N)
    (same : (base + one) % N = (base + two) % N) : one = two := by
  have equal : one ≡ two [MOD N] := Nat.ModEq.add_left_cancel' base same
  rwa [Nat.ModEq, Nat.mod_eq_of_lt first, Nat.mod_eq_of_lt second] at equal

/-- The items stand from the read cursor on, and the write cursor stands behind them. `size` is left out: it
is not up to date inside the loops. -/
structure Circular (buffer : RingBuffer N) (items : List UInt8) : Prop where
  laid : ∀ i < items.length, buffer.data[(buffer.readCursor + i) % N]? = items[i]?
  writes : buffer.writeCursor = (buffer.readCursor + items.length) % N
  reads : buffer.readCursor < N

variable {buffer : RingBuffer N} {items : List UInt8}

theorem Circular.writes_lt (circular : Circular buffer items) : buffer.writeCursor < N := by
  rw [circular.writes]
  exact Nat.mod_lt _ (Nat.zero_lt_of_lt circular.reads)

/-- A piece that ends before the end of the array. -/
theorem Circular.put (circular : Circular buffer items) {piece : List UInt8}
    (room : buffer.writeCursor + piece.length ≤ N) (free : items.length + piece.length ≤ N) {data : Vector UInt8 N}
    (copied : ∀ k, data[k]? = if buffer.writeCursor ≤ k ∧ k < buffer.writeCursor + piece.length
      then piece[k - buffer.writeCursor]? else buffer.data[k]?) :
    Circular { buffer with data, writeCursor := (buffer.writeCursor + piece.length) % N } (items ++ piece) where
  reads := circular.reads
  writes := by
    simp only [circular.writes, List.length_append]
    rw [Nat.mod_add_mod, Nat.add_assoc]
  laid := by
    intro i inside
    rw [List.length_append] at inside
    have writes := circular.writes
    by_cases old : i < items.length
    · have outside : ¬ (buffer.writeCursor ≤ (buffer.readCursor + i) % N ∧
          (buffer.readCursor + i) % N < buffer.writeCursor + piece.length) := by
        rintro ⟨above, below⟩
        obtain ⟨t, at_t⟩ := Nat.exists_eq_add_of_le above
        have small : (buffer.readCursor + items.length) % N + t < N := by omega
        have same : (buffer.readCursor + i) % N = (buffer.readCursor + (items.length + t)) % N := by
          rw [at_t, writes, ← Nat.add_assoc, wrapped_add small]
        have equal := wrapped_inj (by omega) (by omega) same
        omega
      rw [copied, if_neg outside, circular.laid i old, List.getElem?_append_left old]
    · obtain ⟨t, rfl⟩ := Nat.exists_eq_add_of_le (Nat.le_of_not_lt old)
      have small : (buffer.readCursor + items.length) % N + t < N := by omega
      have place : (buffer.readCursor + (items.length + t)) % N = buffer.writeCursor + t := by
        rw [writes, ← Nat.add_assoc, wrapped_add small]
      rw [copied, place, if_pos (by omega), List.getElem?_append_right (Nat.le_add_right ..), Nat.add_sub_cancel_left,
        Nat.add_sub_cancel_left]

theorem Circular.take (circular : Circular buffer items) {length : Nat} (room : buffer.readCursor + length ≤ N)
    (stored : length ≤ items.length) : copyOut buffer.data buffer.readCursor length = some (items.take length) := by
  apply copyOut_spec buffer.data room (List.length_take_of_le stored)
  intro i inside
  have place : (buffer.readCursor + i) % N = buffer.readCursor + i := Nat.mod_eq_of_lt (by omega)
  rw [← place, circular.laid i (by omega), List.getElem?_take_of_lt inside]

theorem Circular.drop (circular : Circular buffer items) {length : Nat} (stored : length ≤ items.length) :
    Circular { buffer with readCursor := (buffer.readCursor + length) % N } (items.drop length) where
  reads := Nat.mod_lt _ (Nat.zero_lt_of_lt circular.reads)
  writes := by
    rw [List.length_drop, Nat.mod_add_mod, circular.writes, Nat.add_assoc, Nat.add_sub_cancel' stored]
  laid := by
    intro i inside
    rw [List.length_drop] at inside
    rw [Nat.mod_add_mod, Nat.add_assoc, circular.laid _ (by omega), List.getElem?_drop]

/-! ## The loops -/

theorem writeLoop_spec {src : List UInt8} {length fuel written : Nat} (circular : Circular buffer items)
    (available : length ≤ src.length) (begun : written ≤ length) (free : items.length + (length - written) ≤ N)
    (enough : length - written ≤ fuel) :
    ∃ final, writeLoop src length fuel written buffer = some (length, final) ∧
      Circular final (items ++ (src.drop written).take (length - written)) ∧ final.size = buffer.size := by
  induction fuel generalizing written buffer items with
  | zero =>
    obtain rfl : written = length := by omega
    refine ⟨buffer, ?_, by simpa using circular, rfl⟩
    rw [writeLoop, if_neg (Nat.lt_irrefl _)]
  | succ fuel ih =>
    by_cases more : written < length
    · have inside := circular.writes_lt
      obtain ⟨writeLength, sized⟩ : ∃ k, min (N - buffer.writeCursor) (length - written) = k := ⟨_, rfl⟩
      have pieceLength : ((src.drop written).take writeLength).length = writeLength := by
        rw [List.length_take, List.length_drop]
        omega
      have room : buffer.writeCursor + ((src.drop written).take writeLength).length ≤ N := by omega
      obtain ⟨data, copied, placed⟩ := copyIn_spec buffer.data room
      have next := circular.put room (by omega) placed
      rw [pieceLength] at next
      have split : (src.drop written).take (length - written) =
          (src.drop written).take writeLength ++
            (src.drop (written + writeLength)).take (length - (written + writeLength)) := by
        rw [← List.drop_drop, ← List.take_add]
        congr 1
        omega
      have onward : written + writeLength ≤ length := by omega
      have space : (items ++ (src.drop written).take writeLength).length + (length - (written + writeLength)) ≤ N := by
        rw [List.length_append]
        omega
      obtain ⟨final, computed, after, same⟩ := ih next onward space (by omega)
      refine ⟨final, ?_, ?_, same⟩
      · rw [writeLoop, if_pos more]
        simp only [sized, copied, Option.bind_eq_bind, Option.bind_some]
        exact computed
      · rw [split, ← List.append_assoc]
        exact after
    · obtain rfl : written = length := by omega
      refine ⟨buffer, ?_, by simpa using circular, rfl⟩
      rw [writeLoop, if_neg (Nat.lt_irrefl _)]

theorem readLoop_spec (dest : List UInt8) {length fuel read : Nat} (circular : Circular buffer items)
    (begun : read ≤ length) (stored : length - read ≤ items.length) (enough : length - read ≤ fuel) :
    ∃ final, readLoop length fuel read dest buffer = some (length, dest ++ items.take (length - read), final) ∧
      Circular final (items.drop (length - read)) ∧ final.size = buffer.size := by
  induction fuel generalizing read dest buffer items with
  | zero =>
    obtain rfl : read = length := by omega
    refine ⟨buffer, ?_, by simpa using circular, rfl⟩
    simp [readLoop]
  | succ fuel ih =>
    by_cases more : read < length
    · have inside := circular.reads
      obtain ⟨readLength, sized⟩ : ∃ k, min (N - buffer.readCursor) (length - read) = k := ⟨_, rfl⟩
      have room : buffer.readCursor + readLength ≤ N := by omega
      have front : readLength ≤ items.length := by omega
      have onward : read + readLength ≤ length := by omega
      have left : length - (read + readLength) ≤ (items.drop readLength).length := by
        rw [List.length_drop]
        omega
      have bytes := circular.take room front
      obtain ⟨final, computed, after, same⟩ :=
        ih (dest ++ items.take readLength) (circular.drop front) onward left (by omega)
      have whole : length - read = readLength + (length - (read + readLength)) := by omega
      refine ⟨final, ?_, ?_, same⟩
      · rw [readLoop, if_pos more]
        simp only [sized, bytes, Option.bind_eq_bind, Option.bind_some]
        rw [whole, List.take_add, ← List.append_assoc]
        exact computed
      · rw [whole, ← List.drop_drop]
        exact after
    · obtain rfl : read = length := by omega
      refine ⟨buffer, ?_, by simpa using circular, rfl⟩
      simp [readLoop]

/-! ## The operations -/

structure RingHolds (buffer : RingBuffer N) (queue : BoundedQueue UInt8 N) : Prop where
  circular : Circular buffer queue.items
  size : buffer.size = queue.items.length

/-- What can be seen of the buffer besides its answers, and the cursors. -/
structure RingAgrees (buffer : RingBuffer N) (queue : BoundedQueue UInt8 N) : Prop where
  size : buffer.size = queue.items.length
  empty : buffer.empty = true ↔ queue.items = []
  full : buffer.full = true ↔ queue.items.length = N
  freeSpace : buffer.freeSpace = N - queue.items.length
  writeCursor : buffer.writeCursor < N
  readCursor : buffer.readCursor < N

variable {queue : BoundedQueue UInt8 N}

theorem RingHolds.agrees (holds : RingHolds buffer queue) : RingAgrees buffer queue where
  size := holds.size
  empty := by simp [RingBuffer.empty, holds.size]
  full := by simp [RingBuffer.full, holds.size]
  freeSpace := by rw [RingBuffer.freeSpace, holds.size]
  writeCursor := holds.circular.writes_lt
  readCursor := holds.circular.reads

theorem ringHolds_reset (positive : 0 < N) (buffer : RingBuffer N) : RingHolds buffer.reset BoundedQueue.empty where
  circular := ⟨by simp [BoundedQueue.empty], by simp [reset, BoundedQueue.empty], positive⟩
  size := rfl

theorem RingHolds.write (holds : RingHolds buffer queue) (src : List UInt8) :
    ∃ next, buffer.write src = some (min src.length (N - queue.items.length), next) ∧ RingHolds next (queue.write src) := by
  have bounded := queue.bounded
  have size := holds.size
  obtain ⟨length, sized⟩ : ∃ k, min buffer.freeSpace src.length = k := ⟨_, rfl⟩
  rw [freeSpace] at sized
  have available : length ≤ src.length := by omega
  have free : queue.items.length + (length - 0) ≤ N := by omega
  obtain ⟨final, computed, after, same⟩ :=
    writeLoop_spec holds.circular available (Nat.zero_le _) free (Nat.le_refl _)
  have counted : min src.length (N - queue.items.length) = length := by omega
  have taken : src.take length = src.take (N - queue.items.length) := by
    rw [List.take_eq_take_iff]
    omega
  refine ⟨{ final with size := final.size + length }, ?_, ⟨?_, ?_⟩⟩
  · rw [RingBuffer.write, freeSpace, sized, counted]
    simp only [Nat.sub_zero] at computed
    simp only [computed, Option.bind_eq_bind, Option.bind_some]
  · rw [List.drop_zero, Nat.sub_zero, taken] at after
    exact ⟨after.laid, after.writes, after.reads⟩
  · simp only [BoundedQueue.write, List.length_append, List.length_take]
    omega

theorem RingHolds.readTo (holds : RingHolds buffer queue) (dest : List UInt8) (length : Nat) :
    ∃ next, buffer.readTo dest length =
        some (min length queue.items.length, dest ++ queue.items.take length, next) ∧
      RingHolds next (queue.read length) := by
  have size := holds.size
  obtain ⟨count, sized⟩ : ∃ k, min buffer.size length = k := ⟨_, rfl⟩
  have stored : count - 0 ≤ queue.items.length := by omega
  obtain ⟨final, computed, after, same⟩ :=
    readLoop_spec dest holds.circular (Nat.zero_le count) stored (Nat.le_refl _)
  have counted : min length queue.items.length = count := by omega
  have taken : queue.items.take length = queue.items.take count := counted ▸ List.take_eq_take_min
  have dropped : queue.items.drop length = queue.items.drop count := counted ▸ List.drop_eq_drop_min
  refine ⟨{ final with size := final.size - count }, ?_, ⟨?_, ?_⟩⟩
  · rw [RingBuffer.readTo, sized, counted, taken]
    simp only [Nat.sub_zero] at computed
    simp only [computed, Option.bind_eq_bind, Option.bind_some]
  · rw [Nat.sub_zero, ← dropped] at after
    exact ⟨after.laid, after.writes, after.reads⟩
  · simp only [BoundedQueue.read, List.length_drop]
    omega

theorem RingHolds.readStream (holds : RingHolds buffer queue) (stream : List UInt8) (length : Nat) :
    ∃ next, buffer.perform (.readStream stream length) = some ((queue.perform (.readStream stream length)).1, next) ∧
      RingHolds next (queue.read length) := by
  obtain ⟨next, computed, after⟩ := holds.readTo stream length
  refine ⟨next, ?_, after⟩
  rw [RingBuffer.perform, RingBuffer.readStream, computed]
  rfl

theorem RingHolds.perform (holds : RingHolds buffer queue) (action : QueueAction UInt8) :
    ∃ next, buffer.perform action = some ((queue.perform action).1, next) ∧ RingHolds next (queue.perform action).2 := by
  cases action with
  | write src =>
    obtain ⟨next, computed, after⟩ := holds.write src
    refine ⟨next, ?_, after⟩
    rw [RingBuffer.perform, computed]
    rfl
  | read length => exact holds.readStream [] length
  | readStream stream length => exact holds.readStream stream length
  | reset =>
    exact ⟨buffer.reset, rfl, ringHolds_reset (Nat.zero_lt_of_lt holds.circular.reads) buffer⟩

/-- Every run answers as the bounded queue does, and agrees with it in every state. -/
theorem ring_buffer_refines (N : Nat) (positive : 0 < N) (actions : List (QueueAction UInt8)) :
    Refines RingBuffer.perform BoundedQueue.perform RingAgrees (RingBuffer.create (N := N), BoundedQueue.empty)
      actions := by
  apply refines_of_simulates RingHolds.agrees
  · exact fun holds => holds.perform _
  · exact ringHolds_reset positive RingBuffer.create

/-- Five bytes for three places, and the two that are read make room for one at the start of the array. -/
theorem ring_buffer_wraps : Refines RingBuffer.perform BoundedQueue.perform RingAgrees
    (RingBuffer.create (N := 3), BoundedQueue.empty)
    [.write [1, 2, 3, 4, 5], .read 2, .write [6], .readStream [9] 7, .reset] :=
  ring_buffer_refines 3 (by decide) _

end Cassobee.Proofs
