import NfNetwork.Buffer.ZeroCopy

/-! Reading out of the ring without a copy. `GetDirectDequeueSize` compares the two indexes
alone, and they also meet when the ring is full. -/
namespace NfNetwork.Buffer.RingBuffer

open Machinery

def getDirectDequeueSize (rb : RingBuffer) : Nat :=
  if rb.isEmpty then 0
  else if rb.readIndex ≤ rb.writeIndex then rb.writeIndex - rb.readIndex
  else rb.maxCapacity - rb.readIndex

/-- `GetReadBufferPtr`, as an offset into the storage. -/
def getReadBufferPtr (rb : RingBuffer) : Nat := rb.readIndex

/-- The ring offers what lies in one piece at its front: as many bytes as a `Dequeue` could
return before the storage ends, and the same bytes. -/
structure ReadsDirectly (rb : RingBuffer) : Prop where
  zero_iff : rb.getDirectDequeueSize = 0 ↔ rb.isEmpty = true
  contiguous : rb.isEmpty = false →
    rb.getDirectDequeueSize = min rb.usedSize (rb.maxCapacity - rb.readIndex)
  agrees : ∀ size, rb.getDirectDequeueSize ≤ size → ∃ bytes rb',
    rb.dequeue size = some (bytes, rb') ∧
      readBytes rb.buffer rb.getReadBufferPtr rb.getDirectDequeueSize =
        some (bytes.take rb.getDirectDequeueSize)

section Sizes

variable {rb : RingBuffer} {queue : List UInt8}

theorem isEmpty_iff : rb.isEmpty = true ↔ rb.usedSize = 0 := beq_iff_eq

theorem isEmpty_eq_false (h : 0 < rb.usedSize) : rb.isEmpty = false := by
  rw [← Bool.not_eq_true, isEmpty_iff]
  exact h.ne'

/-- In a full ring the indexes have met, wherever that is. -/
theorem Represents.writeIndex_of_full (h : rb.Represents queue) (hFull : rb.usedSize = rb.maxCapacity) :
    rb.writeIndex = rb.readIndex := by
  have hRead := h.read_lt
  have hWrite := h.write_lt
  have hEq := h.write_eq
  rw [hFull, Nat.add_mod_right] at hEq
  rcases Nat.eq_zero_or_pos rb.maxCapacity with hZero | hPos
  · omega
  · rwa [Nat.mod_eq_of_lt (by omega), Nat.mod_eq_of_lt (by omega)] at hEq

theorem Represents.direct_of_full (h : rb.Represents queue) (hFull : rb.usedSize = rb.maxCapacity) :
    rb.getDirectDequeueSize = 0 := by
  rw [getDirectDequeueSize, h.writeIndex_of_full hFull, if_pos (Nat.le_refl _), Nat.sub_self, ite_self]

/-- Away from a full ring the two comparisons find the end of the first piece. -/
theorem Represents.direct_of_free (h : rb.Represents queue) (hFree : 0 < rb.getEnquableSize) :
    rb.getDirectDequeueSize = min rb.usedSize (rb.maxCapacity - rb.readIndex) := by
  have hRead := h.read_lt
  have hWrite := h.write_lt
  have hLayout := h.writeIndex_of_free hFree
  rw [getEnquableSize] at hFree
  rcases Nat.eq_zero_or_pos rb.usedSize with hZero | hPos
  · rw [getDirectDequeueSize, if_pos (isEmpty_iff.mpr hZero), hZero, Nat.zero_min]
  · rw [getDirectDequeueSize, isEmpty_eq_false hPos, if_neg Bool.false_ne_true]
    split_ifs
    · omega
    · omega

/-- A piece at the front that does not reach the end of the storage is what `Dequeue` copies. -/
theorem Represents.readBytes_front (h : rb.Represents queue) {n : Nat} (hUsed : n ≤ rb.usedSize)
    (hEnd : n ≤ rb.maxCapacity - rb.readIndex) :
    readBytes rb.buffer rb.getReadBufferPtr n = some (queue.take n) :=
  (h.copyOut (h.used ▸ hUsed)).1 hEnd

/-- Only a full ring breaks the promise: it offers nothing. -/
theorem Represents.readsDirectly_iff (h : rb.Represents queue) :
    rb.ReadsDirectly ↔ ¬(0 < rb.usedSize ∧ rb.usedSize = rb.maxCapacity) := by
  constructor
  · intro hReads hFull
    have hEmpty := hReads.zero_iff.mp (h.direct_of_full hFull.2)
    rw [isEmpty_iff] at hEmpty
    omega
  · intro hNot
    have hSize : rb.getDirectDequeueSize = min rb.usedSize (rb.maxCapacity - rb.readIndex) := by
      have hUsed := h.used
      have hFits := h.fits
      rcases Nat.lt_or_ge rb.usedSize rb.maxCapacity with hFree | hFull
      · exact h.direct_of_free (by rw [getEnquableSize]; omega)
      · rw [h.direct_of_full (by omega)]
        omega
    have hRead := h.read_lt
    refine ⟨?_, fun _ => hSize, ?_⟩
    · rw [isEmpty_iff, hSize]
      have hUsed := h.used
      have hFits := h.fits
      omega
    · intro size hLe
      obtain ⟨rb', hDequeue, -, -⟩ := h.dequeue size
      refine ⟨_, rb', hDequeue, ?_⟩
      rw [List.take_take, Nat.min_eq_left hLe]
      exact h.readBytes_front (by omega) (by omega)

end Sizes

/-- Whatever the ring was used for, a direct read agrees with `Dequeue` unless the ring is full. -/
theorem readsDirectly_of_reachable {capacity : Nat} {rb : RingBuffer}
    (h : Reachable (Takes use) (fun _ _ => True) (init capacity) rb) :
    rb.ReadsDirectly ↔ ¬(0 < rb.usedSize ∧ rb.usedSize = rb.maxCapacity) := by
  obtain ⟨queue, hQueue⟩ := (inUse_of_reachable h).represents
  exact hQueue.readsDirectly_iff

/-- A wrapped ring offers the bytes up to the end of the storage. -/
theorem readsDirectly_of_wrapped : ∃ rb, exec use (init 4)
      [.call (.enqueue [1, 2, 3, 4]), .call (.dequeue 3), .call (.enqueue [5, 6])] = some rb ∧
      rb.getDirectDequeueSize = 1 ∧ rb.ReadsDirectly := by
  obtain ⟨rb, hRun, hSize, hFree⟩ : ∃ rb, exec use (init 4)
      [.call (.enqueue [1, 2, 3, 4]), .call (.dequeue 3), .call (.enqueue [5, 6])] = some rb ∧
      rb.getDirectDequeueSize = 1 ∧ ¬(0 < rb.usedSize ∧ rb.usedSize = rb.maxCapacity) :=
    ⟨_, rfl, by decide, by decide⟩
  exact ⟨rb, hRun, hSize, (readsDirectly_of_reachable (reachable_of_exec hRun)).mpr hFree⟩

/-- A full ring holds four bytes and offers none of them. -/
theorem not_readsDirectly_of_full : ∃ rb, Reachable (Takes use) (fun _ _ => True) (init 4) rb ∧
    rb.isEmpty = false ∧ rb.getDirectDequeueSize = 0 ∧ ¬rb.ReadsDirectly := by
  obtain ⟨rb, hRun, hEmpty, hSize⟩ : ∃ rb, exec use (init 4) [.call (.enqueue [1, 2, 3, 4])] = some rb ∧
      rb.isEmpty = false ∧ rb.getDirectDequeueSize = 0 := ⟨_, rfl, by decide, by decide⟩
  refine ⟨rb, reachable_of_exec hRun, hEmpty, hSize, ?_⟩
  intro hReads
  rw [hReads.zero_iff.mp hSize] at hEmpty
  cases hEmpty

end NfNetwork.Buffer.RingBuffer
