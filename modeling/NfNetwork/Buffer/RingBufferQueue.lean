import NfNetwork.Buffer.RingBuffer

/-! The ring buffer seen as a bounded queue of bytes. `Represents` ties the
counters and the storage to an abstract list; each operation has one lemma that
says what it does to that list, and no later proof opens an operation. -/
namespace NfNetwork.Buffer.RingBuffer

open Machinery

/-- The ring holds exactly `queue`, oldest byte first. -/
structure Represents (rb : RingBuffer) (queue : List UInt8) : Prop where
  storage : rb.maxCapacity < rb.buffer.length
  used : rb.usedSize = queue.length
  fits : queue.length ≤ rb.maxCapacity
  read_lt : rb.readIndex < max rb.maxCapacity 1
  write_lt : rb.writeIndex < max rb.maxCapacity 1
  write_eq : rb.writeIndex % rb.maxCapacity = (rb.readIndex + rb.usedSize) % rb.maxCapacity
  content : slice rb.buffer rb.maxCapacity rb.readIndex rb.usedSize = queue

theorem init_represents (maxCapacity : Nat) : (init maxCapacity).Represents [] where
  storage := by simp [init]
  used := rfl
  fits := Nat.zero_le _
  read_lt := by simp [init]
  write_lt := by simp [init]
  write_eq := rfl
  content := rfl

theorem clearBuffer_represents {rb : RingBuffer} {queue : List UInt8} (h : rb.Represents queue) :
    rb.clearBuffer.Represents [] where
  storage := h.storage
  used := rfl
  fits := Nat.zero_le _
  read_lt := by simp [clearBuffer]
  write_lt := by simp [clearBuffer]
  write_eq := rfl
  content := rfl

/-- The counter update every operation performs is addition modulo the capacity. -/
theorem advance_eq_mod {capacity index n : Nat} (hIndex : index < max capacity 1)
    (hn : n ≤ capacity) :
    (if n ≤ capacity - index then (if index + n = capacity then 0 else index + n)
      else n - (capacity - index)) = (index + n) % capacity := by
  rcases Nat.eq_zero_or_pos capacity with rfl | hPos
  · have : index = 0 := by simpa using hIndex
    subst this
    simp_all
  have hLt : index < capacity := by omega
  split_ifs with hDirect hEnd
  · rw [hEnd, Nat.mod_self]
  · rw [Nat.mod_eq_of_lt (by omega)]
  · rw [Nat.mod_eq_sub_mod (by omega), Nat.mod_eq_of_lt (by omega)]
    omega

theorem mod_lt_max (capacity index : Nat) (h : capacity = 0 → index = 0) :
    index % capacity < max capacity 1 := by
  rcases Nat.eq_zero_or_pos capacity with rfl | hPos
  · simp [h rfl]
  · have := Nat.mod_lt index hPos
    omega

/-- Removing the first `n` bytes moves the read index by `n`, whatever copies
were made on the way. -/
theorem Represents.advanceRead {rb : RingBuffer} {queue : List UInt8} (h : rb.Represents queue)
    {n : Nat} (hn : n ≤ queue.length) :
    ({ rb with readIndex := (rb.readIndex + n) % rb.maxCapacity
               usedSize := rb.usedSize - n } : RingBuffer).Represents (queue.drop n) where
  storage := h.storage
  used := by simp [h.used]
  fits := by
    have := h.fits
    rw [List.length_drop]
    exact (Nat.sub_le _ _).trans this
  read_lt := by
    apply mod_lt_max
    intro hZero
    have hRead := h.read_lt
    have hFits := h.fits
    simp only [hZero] at hRead hFits
    omega
  write_lt := h.write_lt
  write_eq := by
    have hUsed := h.used
    change rb.writeIndex % rb.maxCapacity =
      ((rb.readIndex + n) % rb.maxCapacity + (rb.usedSize - n)) % rb.maxCapacity
    rw [h.write_eq, Nat.mod_add_mod]
    congr 1
    omega
  content := by
    have hUsed := h.used
    change slice rb.buffer rb.maxCapacity ((rb.readIndex + n) % rb.maxCapacity)
      (rb.usedSize - n) = queue.drop n
    rw [slice_congr _ _ _ (Nat.mod_mod _ _), ← slice_drop _ _ _ (by omega), h.content]

/-- The two-part copy of `Dequeue` and `Peek` reads one circular slice. -/
theorem Represents.copyOut {rb : RingBuffer} {queue : List UInt8} (h : rb.Represents queue)
    {n : Nat} (hn : n ≤ queue.length) :
    (n ≤ rb.maxCapacity - rb.readIndex →
      readBytes rb.buffer rb.readIndex n = some (queue.take n)) ∧
    (¬n ≤ rb.maxCapacity - rb.readIndex → ∃ front back,
      readBytes rb.buffer rb.readIndex (rb.maxCapacity - rb.readIndex) = some front ∧
      readBytes rb.buffer 0 (n - (rb.maxCapacity - rb.readIndex)) = some back ∧
      front ++ back = queue.take n) := by
  have hUsed := h.used
  have hFits := h.fits
  have hRead := h.read_lt
  have hStorage := h.storage
  have hTake : queue.take n = slice rb.buffer rb.maxCapacity rb.readIndex n := by
    rw [← h.content, slice_take _ _ _ (by omega)]
  constructor
  · intro hDirect
    rw [hTake]
    exact readBytes_eq_slice (by omega) hStorage.le
  · intro hWrap
    have hLt : rb.readIndex < rb.maxCapacity := by omega
    refine ⟨_, _, readBytes_eq_slice (by omega) hStorage.le,
      readBytes_eq_slice (by omega) hStorage.le, ?_⟩
    have hSplit : n = (rb.maxCapacity - rb.readIndex) + (n - (rb.maxCapacity - rb.readIndex)) := by
      omega
    rw [hTake]
    conv_rhs => rw [hSplit, slice_add]
    congr 1
    apply slice_congr
    rw [show rb.readIndex + (rb.maxCapacity - rb.readIndex) = rb.maxCapacity by omega]
    simp

theorem Represents.dequeue {rb : RingBuffer} {queue : List UInt8} (h : rb.Represents queue)
    (size : Nat) : ∃ rb', rb.dequeue size = some (queue.take size, rb') ∧
      rb'.Represents (queue.drop size) ∧ rb'.maxCapacity = rb.maxCapacity := by
  rcases Nat.eq_zero_or_pos size with rfl | hPos
  · exact ⟨rb, by simp [RingBuffer.dequeue], by simpa using h, rfl⟩
  have hUsed := h.used
  have hAvailable : min size rb.usedSize ≤ queue.length := by omega
  have hFits := h.fits
  have hTake : queue.take (min size rb.usedSize) = queue.take size := by
    rw [hUsed, ← List.take_eq_take_min]
  have hDrop : queue.drop (min size rb.usedSize) = queue.drop size := by
    rw [hUsed, ← List.drop_eq_drop_min]
  obtain ⟨hDirect, hWrap⟩ := h.copyOut hAvailable
  have hMove := h.advanceRead hAvailable
  rw [hDrop] at hMove
  rw [hTake] at hDirect hWrap
  refine ⟨_, ?_, hMove, rfl⟩
  have hIndex := advance_eq_mod h.read_lt (hAvailable.trans hFits)
  unfold RingBuffer.dequeue
  rw [if_neg (by omega)]
  by_cases hCase : min size rb.usedSize ≤ rb.maxCapacity - rb.readIndex
  · rw [if_pos hCase] at hIndex
    simp only [hCase, ↓reduceIte, hDirect hCase, Option.bind_eq_bind, Option.bind_some, hIndex]
  · rw [if_neg hCase] at hIndex
    obtain ⟨front, back, hFront, hBack, hBytes⟩ := hWrap hCase
    simp only [hCase, ↓reduceIte, hFront, hBack, Option.bind_eq_bind, Option.bind_some, hBytes]
    rw [hIndex]

theorem Represents.peek {rb : RingBuffer} {queue : List UInt8} (h : rb.Represents queue)
    (size : Nat) : rb.peek size = some (queue.take size) := by
  rcases Nat.eq_zero_or_pos size with rfl | hPos
  · simp [RingBuffer.peek]
  have hUsed := h.used
  have hTake : queue.take (min size rb.usedSize) = queue.take size := by
    rw [hUsed, ← List.take_eq_take_min]
  obtain ⟨hDirect, hWrap⟩ := h.copyOut (n := min size rb.usedSize) (by omega)
  rw [hTake] at hDirect hWrap
  unfold RingBuffer.peek
  rw [if_neg (by omega)]
  by_cases hCase : min size rb.usedSize ≤ rb.maxCapacity - rb.readIndex
  · simp only [hCase, ↓reduceIte, hDirect hCase]
  · obtain ⟨front, back, hFront, hBack, hBytes⟩ := hWrap hCase
    simp only [hCase, ↓reduceIte, hFront, hBack, Option.bind_eq_bind, Option.bind_some, hBytes]

theorem Represents.moveRead {rb : RingBuffer} {queue : List UInt8} (h : rb.Represents queue)
    (size : Nat) : (rb.moveRead size).1 = min size queue.length ∧
      (rb.moveRead size).2.Represents (queue.drop size) ∧
      (rb.moveRead size).2.maxCapacity = rb.maxCapacity := by
  rcases Nat.eq_zero_or_pos size with rfl | hPos
  · simpa [RingBuffer.moveRead] using h
  have hUsed := h.used
  have hAvailable : min size rb.usedSize ≤ queue.length := by omega
  have hDrop : queue.drop (min size rb.usedSize) = queue.drop size := by
    rw [hUsed, ← List.drop_eq_drop_min]
  have hMove := h.advanceRead hAvailable
  rw [hDrop] at hMove
  have hIndex := advance_eq_mod h.read_lt (hAvailable.trans h.fits)
  unfold RingBuffer.moveRead
  rw [if_neg (by omega)]
  by_cases hCase : min size rb.usedSize ≤ rb.maxCapacity - rb.readIndex
  · rw [if_pos hCase] at hIndex
    simp only [hCase, ↓reduceIte, hIndex]
    exact ⟨by rw [hUsed], hMove, trivial⟩
  · rw [if_neg hCase] at hIndex
    simp only [hCase, ↓reduceIte, hIndex]
    exact ⟨by rw [hUsed], hMove, trivial⟩

/-- Whether `RecvPost` posted one buffer or two, a completion that fits is
stored from the write index on with at most one wrap at the capacity. -/
theorem Represents.scatter_eq {rb : RingBuffer} {queue bytes : List UInt8}
    (h : rb.Represents queue) (hRoom : queue.length + bytes.length ≤ rb.maxCapacity)
    (hFree : queue.length < rb.maxCapacity) : ∃ middle block,
      writeBytes rb.buffer rb.writeIndex (bytes.take (rb.maxCapacity - rb.writeIndex)) =
        some middle ∧
      writeBytes middle 0 (bytes.drop (rb.maxCapacity - rb.writeIndex)) = some block ∧
      scatter rb.buffer rb.recvBuffers bytes = some block := by
  have hUsed := h.used
  have hStorage := h.storage
  have hRead := h.read_lt
  have hWrite := h.write_lt
  have hEq := h.write_eq
  rw [Nat.mod_eq_of_lt (by omega)] at hEq
  have hTake : (bytes.take (rb.maxCapacity - rb.writeIndex)).length ≤
      rb.maxCapacity - rb.writeIndex := List.length_take_le ..
  have hDrop : (bytes.drop (rb.maxCapacity - rb.writeIndex)).length =
      bytes.length - (rb.maxCapacity - rb.writeIndex) := List.length_drop ..
  obtain ⟨middle, hFirst⟩ : ∃ middle, writeBytes rb.buffer rb.writeIndex
      (bytes.take (rb.maxCapacity - rb.writeIndex)) = some middle :=
    ⟨_, writeBytes_of_le (by omega)⟩
  have hMiddle := writeBytes_length hFirst
  obtain ⟨block, hSecond⟩ : ∃ block, writeBytes middle 0
      (bytes.drop (rb.maxCapacity - rb.writeIndex)) = some block :=
    ⟨_, writeBytes_of_le (by omega)⟩
  refine ⟨middle, block, hFirst, hSecond, ?_⟩
  -- When one buffer was posted the whole completion ends inside it.
  have hSingle (d : Nat) (hd : bytes.length ≤ d) (hEnd : d ≤ rb.maxCapacity - rb.writeIndex) :
      scatter rb.buffer [⟨rb.writeIndex, d⟩] bytes = some block := by
    rw [List.drop_eq_nil_of_le (by omega), writeBytes_of_le (Nat.zero_le _)] at hSecond
    rw [List.take_of_length_le (by omega)] at hFirst
    rw [scatter, List.take_of_length_le hd, List.drop_eq_nil_of_le hd, hFirst]
    simpa [scatter] using hSecond
  unfold recvBuffers getDirectEnqueueSize getEnquableSize
  rw [if_neg (show ¬rb.maxCapacity - rb.usedSize = 0 by omega)]
  by_cases hOrder : rb.readIndex ≤ rb.writeIndex
  · rw [if_pos hOrder]
    by_cases hWhole : rb.maxCapacity - rb.writeIndex = rb.maxCapacity - rb.usedSize
    · simp only [hWhole, ↓reduceIte]
      exact hSingle _ (by omega) (by omega)
    · simp only [hWhole, ↓reduceIte]
      have hRest : (bytes.drop (rb.maxCapacity - rb.writeIndex)).length ≤
          rb.maxCapacity - rb.usedSize - (rb.maxCapacity - rb.writeIndex) := by omega
      rw [scatter, hFirst, Option.bind_eq_bind, Option.bind_some, scatter,
        List.take_of_length_le hRest, hSecond, List.drop_eq_nil_of_le hRest]
      rfl
  · -- The free part lies between the two indexes, so it does not wrap.
    have hBehind : rb.writeIndex + rb.maxCapacity = rb.readIndex + rb.usedSize := by
      rcases Nat.lt_or_ge (rb.readIndex + rb.usedSize) rb.maxCapacity with hLt | hGe
      · rw [Nat.mod_eq_of_lt hLt] at hEq
        omega
      · rw [Nat.mod_eq_sub_mod hGe, Nat.mod_eq_of_lt (by omega)] at hEq
        omega
    rw [if_neg hOrder, if_pos (show rb.readIndex - rb.writeIndex =
      rb.maxCapacity - rb.usedSize by omega)]
    exact hSingle _ (by omega) (by omega)

/-- Storing `bytes` from the write index on, with one wrap, leaves what is not read yet. -/
theorem Represents.fill {rb : RingBuffer} {queue bytes : List UInt8} (h : rb.Represents queue)
    (hRoom : queue.length + bytes.length ≤ rb.maxCapacity) (hFree : queue.length < rb.maxCapacity)
    {middle block : Block}
    (hFirst : writeBytes rb.buffer rb.writeIndex (bytes.take (rb.maxCapacity - rb.writeIndex)) =
      some middle)
    (hSecond : writeBytes middle 0 (bytes.drop (rb.maxCapacity - rb.writeIndex)) = some block) :
    ({ rb with buffer := block } : RingBuffer).Represents queue where
  storage := by
    change rb.maxCapacity < block.length
    rw [writeBytes_length hSecond, writeBytes_length hFirst]
    exact h.storage
  used := h.used
  fits := h.fits
  read_lt := h.read_lt
  write_lt := h.write_lt
  write_eq := h.write_eq
  content := by
    have hUsed := h.used
    have hWrite : rb.writeIndex < rb.maxCapacity := by
      have := h.write_lt
      omega
    have hEq := h.write_eq
    rw [Nat.mod_eq_of_lt hWrite] at hEq
    change slice block rb.maxCapacity rb.readIndex rb.usedSize = queue
    rw [slice_wrapped_of_before hWrite hFirst hSecond hEq.symm (by omega), h.content]

/-- Storing them and moving the counters appends them. -/
theorem Represents.append {rb : RingBuffer} {queue bytes : List UInt8} (h : rb.Represents queue)
    (hRoom : queue.length + bytes.length ≤ rb.maxCapacity) (hFree : queue.length < rb.maxCapacity)
    {middle block : Block}
    (hFirst : writeBytes rb.buffer rb.writeIndex (bytes.take (rb.maxCapacity - rb.writeIndex)) =
      some middle)
    (hSecond : writeBytes middle 0 (bytes.drop (rb.maxCapacity - rb.writeIndex)) = some block) :
    ({ rb with buffer := block
               writeIndex := (rb.writeIndex + bytes.length) % rb.maxCapacity
               usedSize := rb.usedSize + bytes.length } : RingBuffer).Represents
      (queue ++ bytes) := by
  have hUsed := h.used
  have hWrite : rb.writeIndex < rb.maxCapacity := by
    have := h.write_lt
    omega
  have hEq := h.write_eq
  rw [Nat.mod_eq_of_lt hWrite] at hEq
  exact {
    storage := by
      change rb.maxCapacity < block.length
      rw [writeBytes_length hSecond, writeBytes_length hFirst]
      exact h.storage
    used := by simp [hUsed]
    fits := by simpa using hRoom
    read_lt := h.read_lt
    write_lt := (Nat.mod_lt _ (by omega)).trans_le (le_max_left _ _)
    write_eq := by
      change (rb.writeIndex + bytes.length) % rb.maxCapacity % rb.maxCapacity =
        (rb.readIndex + (rb.usedSize + bytes.length)) % rb.maxCapacity
      rw [Nat.mod_mod, hEq, Nat.mod_add_mod, Nat.add_assoc]
    content := by
      change slice block rb.maxCapacity rb.readIndex (rb.usedSize + bytes.length) = _
      have hTurn : (rb.readIndex + rb.usedSize) % rb.maxCapacity =
          rb.writeIndex % rb.maxCapacity := h.write_eq.symm
      rw [slice_add, slice_wrapped_of_before hWrite hFirst hSecond hEq.symm (by omega), h.content,
        slice_congr _ _ _ hTurn, slice_wrapped_self hWrite (by omega) hFirst hSecond] }

/-- `MoveWrite` moves the write index by what it returns. -/
theorem Represents.moveWrite_eq {rb : RingBuffer} {queue : List UInt8} (h : rb.Represents queue)
    {size n : Nat} (hn : min size rb.getEnquableSize = n) :
    rb.moveWrite size = (n, { rb with writeIndex := (rb.writeIndex + n) % rb.maxCapacity
                                      usedSize := rb.usedSize + n }) := by
  have hSame : rb.writeIndex % rb.maxCapacity = rb.writeIndex := by
    rcases Nat.eq_zero_or_pos rb.maxCapacity with hZero | hPos
    · rw [hZero, Nat.mod_zero]
    · exact Nat.mod_eq_of_lt (by have := h.write_lt; omega)
  rw [getEnquableSize] at hn
  rcases Nat.eq_zero_or_pos size with rfl | hPos
  · obtain rfl : n = 0 := by omega
    simp [RingBuffer.moveWrite, hSame]
  have hIndex := advance_eq_mod h.write_lt (show n ≤ rb.maxCapacity by omega)
  unfold RingBuffer.moveWrite
  rw [if_neg (by omega), hn]
  by_cases hCase : n ≤ rb.maxCapacity - rb.writeIndex
  · rw [if_pos hCase] at hIndex
    simp only [hCase, ↓reduceIte, hIndex]
  · rw [if_neg hCase] at hIndex
    simp only [hCase, ↓reduceIte, hIndex]

/-- A completion of `bytes` followed by `MoveWrite` appends them: the counters
and the content agree with an enqueue of the same bytes. -/
theorem Represents.receive {rb : RingBuffer} {queue bytes : List UInt8} (h : rb.Represents queue)
    (hRoom : queue.length + bytes.length ≤ rb.maxCapacity) (hBytes : bytes ≠ []) :
    ∃ rb', rb.receive bytes = some rb' ∧ (rb'.moveWrite bytes.length).1 = bytes.length ∧
      (rb'.moveWrite bytes.length).2.Represents (queue ++ bytes) ∧
      (rb'.moveWrite bytes.length).2.maxCapacity = rb.maxCapacity := by
  have hPos := List.length_pos_of_ne_nil hBytes
  obtain ⟨middle, block, hFirst, hSecond, hScatter⟩ := h.scatter_eq hRoom (by omega)
  have hFilled := h.fill (by omega) (by omega) hFirst hSecond
  have hMove := hFilled.moveWrite_eq
    (show min bytes.length (rb.maxCapacity - rb.usedSize) = bytes.length by
      have := h.used
      omega)
  refine ⟨{ rb with buffer := block }, by rw [RingBuffer.receive, hScatter]; rfl, ?_⟩
  rw [hMove]
  exact ⟨rfl, h.append hRoom (by omega) hFirst hSecond, rfl⟩

end NfNetwork.Buffer.RingBuffer
