import NfNetwork.Buffer.RingBufferQueue
import NfNetwork.Machinery.BoundedQueue
import NfNetwork.Machinery.Client

/-! The ring as a bounded queue of bytes, over any sequence of its operations. That no access
leaves the capacity is said by running the same operations in a storage of that size. -/
namespace NfNetwork.Buffer

open Machinery

/-- A call, with what it is given. -/
inductive RingOp where
  | enqueue (bytes : List UInt8)
  | dequeue (size : Nat)
  | peek (size : Nat)
  | moveRead (size : Nat)
  | clearBuffer
deriving DecidableEq

/-- What a call returns, and what it copied out. `ClearBuffer` returns nothing. -/
structure RingReply where
  size : Nat
  bytes : List UInt8
deriving DecidableEq

/-- An access outside the storage. -/
inductive OutOfBounds where
  | outOfBounds
deriving DecidableEq

namespace RingBuffer

def perform (rb : RingBuffer) : RingOp → Except OutOfBounds (RingReply × RingBuffer)
  | .enqueue bytes => match rb.enqueue bytes with
    | none => .error .outOfBounds
    | some (size, rb) => .ok (⟨size, []⟩, rb)
  | .dequeue size => match rb.dequeue size with
    | none => .error .outOfBounds
    | some (bytes, rb) => .ok (⟨bytes.length, bytes⟩, rb)
  | .peek size => match rb.peek size with
    | none => .error .outOfBounds
    | some bytes => .ok (⟨bytes.length, bytes⟩, rb)
  | .moveRead size => .ok (⟨(rb.moveRead size).1, []⟩, (rb.moveRead size).2)
  | .clearBuffer => .ok (⟨0, []⟩, rb.clearBuffer)

/-- The ring when its storage ends with the capacity. -/
def withinCapacity (rb : RingBuffer) : RingBuffer :=
  { rb with buffer := rb.buffer.take rb.maxCapacity }

end RingBuffer

/-- What the same calls mean for a queue, which has no storage to leave. -/
def performQueue {capacity : Nat} (queue : BoundedQueue UInt8 capacity) :
    RingOp → Except OutOfBounds (RingReply × BoundedQueue UInt8 capacity)
  | .enqueue bytes => .ok (⟨min bytes.length queue.free, []⟩, queue.append bytes)
  | .dequeue size => .ok (⟨min size queue.size, queue.contents.take size⟩, queue.drop size)
  | .peek size => .ok (⟨min size queue.size, queue.contents.take size⟩, queue)
  | .moveRead size => .ok (⟨min size queue.size, []⟩, queue.drop size)
  | .clearBuffer => .ok (⟨0, []⟩, .empty UInt8 capacity)

namespace RingBuffer

section Enqueue

variable {rb : RingBuffer} {queue : List UInt8}

/-- `Enqueue` stores what fits from the write index on, with one wrap at the capacity. -/
theorem Represents.enqueue_eq (h : rb.Represents queue) {bytes stored : List UInt8}
    (hStored : bytes.take (rb.maxCapacity - queue.length) = stored) (hSome : stored ≠ []) :
    ∃ middle block,
      writeBytes rb.buffer rb.writeIndex (stored.take (rb.maxCapacity - rb.writeIndex)) =
        some middle ∧
      writeBytes middle 0 (stored.drop (rb.maxCapacity - rb.writeIndex)) = some block ∧
      rb.enqueue bytes = some (stored.length, { rb with
        buffer := block
        writeIndex := (rb.writeIndex + stored.length) % rb.maxCapacity
        usedSize := rb.usedSize + stored.length }) := by
  have hUsed := h.used
  have hFits := h.fits
  have hStorage := h.storage
  have hWrite := h.write_lt
  have hLength : stored.length = min bytes.length (rb.maxCapacity - rb.usedSize) := by
    rw [← hStored, List.length_take, hUsed, Nat.min_comm]
  have hPos := List.length_pos_of_ne_nil hSome
  have hTake : bytes.take stored.length = stored := by
    rw [hLength, hUsed, Nat.min_comm, ← hStored, ← List.take_eq_take_min]
  have hFront : (stored.take (rb.maxCapacity - rb.writeIndex)).length ≤
      rb.maxCapacity - rb.writeIndex := List.length_take_le ..
  have hBack : (stored.drop (rb.maxCapacity - rb.writeIndex)).length =
      stored.length - (rb.maxCapacity - rb.writeIndex) := List.length_drop ..
  obtain ⟨middle, hFirst⟩ : ∃ middle, writeBytes rb.buffer rb.writeIndex
      (stored.take (rb.maxCapacity - rb.writeIndex)) = some middle :=
    ⟨_, writeBytes_of_le (by omega)⟩
  have hMiddle := writeBytes_length hFirst
  obtain ⟨block, hSecond⟩ : ∃ block, writeBytes middle 0
      (stored.drop (rb.maxCapacity - rb.writeIndex)) = some block :=
    ⟨_, writeBytes_of_le (by omega)⟩
  refine ⟨middle, block, hFirst, hSecond, ?_⟩
  have hIndex := advance_eq_mod hWrite (show stored.length ≤ rb.maxCapacity by omega)
  unfold RingBuffer.enqueue
  rw [if_neg (by omega), ← hLength]
  by_cases hCase : stored.length ≤ rb.maxCapacity - rb.writeIndex
  · rw [if_pos hCase] at hIndex
    rw [List.take_of_length_le hCase] at hFirst
    rw [List.drop_eq_nil_of_le hCase, writeBytes_of_le (Nat.zero_le _)] at hSecond
    have hBlock : middle = block := by simpa using hSecond
    simp only [hCase, ↓reduceIte, hTake, hFirst, Option.bind_eq_bind, Option.bind_some, hIndex, hBlock]
  · rw [if_neg hCase] at hIndex
    have hFst : bytes.take (rb.maxCapacity - rb.writeIndex) =
        stored.take (rb.maxCapacity - rb.writeIndex) := by
      rw [← hTake, List.take_take, Nat.min_eq_left (by omega)]
    have hSnd : (bytes.drop (rb.maxCapacity - rb.writeIndex)).take
        (stored.length - (rb.maxCapacity - rb.writeIndex)) =
        stored.drop (rb.maxCapacity - rb.writeIndex) := by
      rw [← List.drop_take, hTake]
    simp only [hCase, ↓reduceIte, hFst, hFirst, hSnd, hSecond, Option.bind_eq_bind,
      Option.bind_some]
    rw [hIndex]

/-- Nothing fits, or nothing is offered. -/
theorem Represents.enqueue_nothing (h : rb.Represents queue) {bytes : List UInt8}
    (hNone : bytes.take (rb.maxCapacity - queue.length) = []) : rb.enqueue bytes = some (0, rb) := by
  have hUsed := h.used
  have hStorage := h.storage
  have hWrite := h.write_lt
  have hZero : min bytes.length (rb.maxCapacity - rb.usedSize) = 0 := by
    have hLength := congrArg List.length hNone
    rw [List.length_take, List.length_nil] at hLength
    omega
  have hWritten : writeBytes rb.buffer rb.writeIndex (bytes.take 0) = some rb.buffer := by
    rw [List.take_zero, writeBytes_of_le (by rw [List.length_nil]; omega)]
    simp
  have hIndex : (if rb.writeIndex = rb.maxCapacity then 0 else rb.writeIndex) = rb.writeIndex := by
    split_ifs
    · omega
    · rfl
  unfold RingBuffer.enqueue
  split_ifs
  · rfl
  · simp only [hZero, Nat.zero_le, ↓reduceIte, hWritten, Option.bind_eq_bind, Option.bind_some,
      Nat.add_zero, hIndex]

theorem Represents.enqueue (h : rb.Represents queue) (bytes : List UInt8) :
    ∃ rb', rb.enqueue bytes = some (min bytes.length (rb.maxCapacity - queue.length), rb') ∧
      rb'.Represents (queue ++ bytes.take (rb.maxCapacity - queue.length)) ∧
      rb'.maxCapacity = rb.maxCapacity := by
  have hLength : (bytes.take (rb.maxCapacity - queue.length)).length =
      min bytes.length (rb.maxCapacity - queue.length) := by
    rw [List.length_take, Nat.min_comm]
  generalize hStored : bytes.take (rb.maxCapacity - queue.length) = stored at hLength ⊢
  by_cases hSome : stored = []
  · subst hSome
    refine ⟨rb, ?_, by rwa [List.append_nil], rfl⟩
    rw [h.enqueue_nothing hStored, ← hLength]
    rfl
  · obtain ⟨middle, block, hFirst, hSecond, hEnqueue⟩ := h.enqueue_eq hStored hSome
    have hPos := List.length_pos_of_ne_nil hSome
    have hFits := h.fits
    refine ⟨_, hLength ▸ hEnqueue, h.append (by omega) (by omega) hFirst hSecond, rfl⟩

end Enqueue

section WithinCapacity

variable {rb : RingBuffer} {queue : List UInt8}

/-- The copies of `Dequeue` and `Peek` stay below the capacity. -/
theorem Represents.copies_withinCapacity (h : rb.Represents queue) {n : Nat} (hn : n ≤ rb.usedSize) :
    (n ≤ rb.maxCapacity - rb.readIndex →
      readBytes (rb.buffer.take rb.maxCapacity) rb.readIndex n = readBytes rb.buffer rb.readIndex n) ∧
    readBytes (rb.buffer.take rb.maxCapacity) rb.readIndex (rb.maxCapacity - rb.readIndex) =
      readBytes rb.buffer rb.readIndex (rb.maxCapacity - rb.readIndex) ∧
    readBytes (rb.buffer.take rb.maxCapacity) 0 (n - (rb.maxCapacity - rb.readIndex)) =
      readBytes rb.buffer 0 (n - (rb.maxCapacity - rb.readIndex)) := by
  have hUsed := h.used
  have hFits := h.fits
  have hRead := h.read_lt
  have hStorage := h.storage.le
  refine ⟨fun hDirect => ?_, ?_, ?_⟩
  · exact readBytes_take (by omega) hStorage
  · exact readBytes_take (by omega) hStorage
  · exact readBytes_take (by omega) hStorage

theorem Represents.dequeue_withinCapacity (h : rb.Represents queue) (size : Nat) :
    rb.withinCapacity.dequeue size =
      (rb.dequeue size).map fun r => (r.1, r.2.withinCapacity) := by
  obtain ⟨hDirect, hFst, hSnd⟩ := h.copies_withinCapacity (Nat.min_le_right size rb.usedSize)
  unfold RingBuffer.dequeue
  split_ifs with hZero
  · rfl
  · by_cases hCase : min size rb.usedSize ≤ rb.maxCapacity - rb.readIndex
    · simp only [withinCapacity, hCase, ↓reduceIte, hDirect hCase, Option.bind_eq_bind]
      cases readBytes rb.buffer rb.readIndex (min size rb.usedSize) <;> rfl
    · simp only [withinCapacity, hCase, ↓reduceIte, hFst, hSnd, Option.bind_eq_bind]
      cases readBytes rb.buffer rb.readIndex (rb.maxCapacity - rb.readIndex) with
      | none => rfl
      | some front =>
          cases readBytes rb.buffer 0 (min size rb.usedSize - (rb.maxCapacity - rb.readIndex)) <;> rfl

theorem Represents.peek_withinCapacity (h : rb.Represents queue) (size : Nat) :
    rb.withinCapacity.peek size = rb.peek size := by
  obtain ⟨hDirect, hFst, hSnd⟩ := h.copies_withinCapacity (Nat.min_le_right size rb.usedSize)
  unfold RingBuffer.peek
  split_ifs with hZero
  · rfl
  · by_cases hCase : min size rb.usedSize ≤ rb.maxCapacity - rb.readIndex
    · simp only [withinCapacity, hCase, ↓reduceIte, hDirect hCase]
    · simp only [withinCapacity, hCase, ↓reduceIte, hFst, hSnd]

theorem moveRead_withinCapacity (rb : RingBuffer) (size : Nat) :
    rb.withinCapacity.moveRead size =
      ((rb.moveRead size).1, (rb.moveRead size).2.withinCapacity) := by
  unfold RingBuffer.moveRead
  split_ifs with hZero
  · rfl
  · by_cases hCase : min size rb.usedSize ≤ rb.maxCapacity - rb.readIndex
    · simp only [withinCapacity, hCase, ↓reduceIte]
      rfl
    · simp only [withinCapacity, hCase, ↓reduceIte]

theorem Represents.enqueue_withinCapacity (h : rb.Represents queue) (bytes : List UInt8) :
    rb.withinCapacity.enqueue bytes =
      (rb.enqueue bytes).map fun r => (r.1, r.2.withinCapacity) := by
  have hUsed := h.used
  have hFits := h.fits
  have hWrite := h.write_lt
  have hStorage := h.storage.le
  unfold RingBuffer.enqueue
  split_ifs with hZero
  · rfl
  · generalize hAvailable : min bytes.length (rb.maxCapacity - rb.usedSize) = available
    have hRoom : available ≤ rb.maxCapacity := by omega
    by_cases hCase : available ≤ rb.maxCapacity - rb.writeIndex
    · have hCopy : writeBytes (rb.buffer.take rb.maxCapacity) rb.writeIndex (bytes.take available) =
          (writeBytes rb.buffer rb.writeIndex (bytes.take available)).map
            (List.take rb.maxCapacity) :=
        writeBytes_take (by rw [List.length_take]; omega) hStorage
      simp only [withinCapacity, hAvailable, hCase, ↓reduceIte, hCopy, Option.bind_eq_bind]
      cases writeBytes rb.buffer rb.writeIndex (bytes.take available) <;> rfl
    · generalize hFst : bytes.take (rb.maxCapacity - rb.writeIndex) = front
      generalize hSnd : (bytes.drop (rb.maxCapacity - rb.writeIndex)).take
        (available - (rb.maxCapacity - rb.writeIndex)) = back
      have hFront : front.length ≤ rb.maxCapacity - rb.writeIndex := by
        rw [← hFst]
        exact List.length_take_le ..
      have hBack : back.length ≤ rb.maxCapacity := by
        rw [← hSnd, List.length_take]
        omega
      simp only [withinCapacity, hAvailable, hCase, ↓reduceIte, hFst, hSnd, Option.bind_eq_bind]
      rw [writeBytes_take (by omega) hStorage]
      cases hMiddle : writeBytes rb.buffer rb.writeIndex front with
      | none => rfl
      | some middle =>
          simp only [Option.map_some, Option.bind_some]
          rw [writeBytes_take (by omega) (by rwa [writeBytes_length hMiddle])]
          cases writeBytes middle 0 back <;> rfl

end WithinCapacity

/-- The ring that a queue of the same capacity describes. -/
structure Describes {capacity : Nat} (rb : RingBuffer) (queue : BoundedQueue UInt8 capacity) :
    Prop where
  represents : rb.Represents queue.contents
  capacity_eq : rb.maxCapacity = capacity

theorem Describes.perform {capacity : Nat} {rb : RingBuffer} {queue : BoundedQueue UInt8 capacity}
    (op : RingOp) (h : rb.Describes queue) : ∃ reply rb' queue',
      rb.perform op = .ok (reply, rb') ∧ performQueue queue op = .ok (reply, queue') ∧
      rb'.Describes queue' := by
  obtain ⟨hRing, rfl⟩ := h
  cases op with
  | enqueue bytes =>
      obtain ⟨rb', hEnqueue, hNext, hCapacity⟩ := hRing.enqueue bytes
      refine ⟨_, rb', queue.append bytes, ?_, rfl, hNext, hCapacity⟩
      rw [RingBuffer.perform, hEnqueue]
      rfl
  | dequeue size =>
      obtain ⟨rb', hDequeue, hNext, hCapacity⟩ := hRing.dequeue size
      refine ⟨_, rb', queue.drop size, by rw [RingBuffer.perform, hDequeue], ?_, hNext, hCapacity⟩
      rw [performQueue, BoundedQueue.size, List.length_take]
  | peek size =>
      refine ⟨_, rb, queue, by rw [RingBuffer.perform, hRing.peek size], ?_, hRing, rfl⟩
      rw [performQueue, BoundedQueue.size, List.length_take]
  | moveRead size =>
      obtain ⟨hSize, hNext, hCapacity⟩ := hRing.moveRead size
      refine ⟨_, _, queue.drop size, rfl, ?_, hNext, hCapacity⟩
      rw [performQueue, BoundedQueue.size, hSize]
  | clearBuffer =>
      exact ⟨_, _, .empty UInt8 rb.maxCapacity, rfl, rfl, clearBuffer_represents hRing, rfl⟩

/-- The last byte of the storage is never touched. -/
theorem Represents.perform_withinCapacity {rb : RingBuffer} {queue : List UInt8}
    (h : rb.Represents queue) (op : RingOp) :
    rb.withinCapacity.perform op =
      (rb.perform op).map fun r => (r.1, r.2.withinCapacity) := by
  cases op with
  | enqueue bytes =>
      simp only [RingBuffer.perform, h.enqueue_withinCapacity]
      cases rb.enqueue bytes <;> rfl
  | dequeue size =>
      simp only [RingBuffer.perform, h.dequeue_withinCapacity]
      cases rb.dequeue size <;> rfl
  | peek size =>
      simp only [RingBuffer.perform, h.peek_withinCapacity]
      cases rb.peek size <;> rfl
  | moveRead size =>
      simp only [RingBuffer.perform, moveRead_withinCapacity]
      rfl
  | clearBuffer => rfl

/-- A ring in use, and the same ring without the last byte. -/
structure Shortens (rb short : RingBuffer) : Prop where
  short_eq : short = rb.withinCapacity
  inUse : ∃ queue : BoundedQueue UInt8 rb.maxCapacity, rb.Describes queue

theorem Shortens.perform {rb short : RingBuffer} (op : RingOp) (h : rb.Shortens short) :
    ∃ reply rb' short', rb.perform op = .ok (reply, rb') ∧ short.perform op = .ok (reply, short') ∧
      rb'.Shortens short' := by
  obtain ⟨rfl, queue, hQueue⟩ := h
  obtain ⟨reply, rb', queue', hRing, -, hNext⟩ := hQueue.perform op
  have hCapacity := hNext.capacity_eq
  refine ⟨reply, rb', rb'.withinCapacity, hRing, ?_, rfl, ?_⟩
  · rw [hQueue.represents.perform_withinCapacity, hRing]
    rfl
  · rw [hCapacity]
    exact ⟨queue', hNext⟩

/-- Any sequence of operations on a new ring is the same sequence on an empty queue of its
capacity, also when the storage has no byte past the capacity. -/
theorem refines_boundedQueue (capacity : Nat) (ops : List RingOp) :
    ∃ (replies : List RingReply) (rb : RingBuffer) (queue : BoundedQueue UInt8 capacity),
      answers perform (init capacity) ops = .ok (replies, rb) ∧
      answers performQueue (.empty UInt8 capacity) ops = .ok (replies, queue) ∧
      answers perform (init capacity).withinCapacity ops = .ok (replies, rb.withinCapacity) ∧
      rb.Represents queue.contents ∧ rb.maxCapacity = capacity := by
  have hStart : (init capacity).Describes (.empty UInt8 capacity) := ⟨init_represents capacity, rfl⟩
  obtain ⟨replies, rb, queue, hRing, hQueue, hLast⟩ :=
    answers_of_simulation Describes.perform hStart ops
  obtain ⟨replies', rb', short, hRing', hShort, hSame⟩ :=
    answers_of_simulation Shortens.perform
      (⟨rfl, _, hStart⟩ : (init capacity).Shortens (init capacity).withinCapacity) ops
  obtain ⟨rfl, rfl⟩ : replies' = replies ∧ rb' = rb := by
    simpa using hRing'.symm.trans hRing
  refine ⟨replies', rb', queue, hRing, hQueue, ?_, hLast.represents, hLast.capacity_eq⟩
  rw [hShort, hSame.short_eq]

end RingBuffer
end NfNetwork.Buffer
