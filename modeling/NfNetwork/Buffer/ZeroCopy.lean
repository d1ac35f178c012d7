import NfNetwork.Buffer.ByteQueue
import NfNetwork.Machinery.Transition

/-! Receiving into the ring without a copy. `RecvPost` hands the free part of the storage to
the kernel, and `MoveWrite` takes over what arrived; together they are an `Enqueue`. -/
namespace NfNetwork.Buffer

open Machinery

/-- A use of the ring: a call, or what the kernel stores through the posted buffers. -/
inductive RingUse where
  | call (op : RingOp)
  | moveWrite (size : Nat)
  | fill (bytes : List UInt8)
deriving DecidableEq

namespace RingBuffer

/-- The ring after one use. -/
def use (rb : RingBuffer) : RingUse → Option RingBuffer
  | .call op => (rb.perform op).toOption.map Prod.snd
  | .moveWrite size => some (rb.moveWrite size).2
  | .fill bytes => rb.receive bytes

/-- The offset belongs to a byte that was not read yet. -/
def Live (rb : RingBuffer) (offset : Nat) : Prop :=
  ∃ i < rb.usedSize, offset = (rb.readIndex + i) % rb.maxCapacity

/-- The offset belongs to a posted buffer. -/
def WsaBuf.Covers (b : WsaBuf) (offset : Nat) : Prop := b.buf ≤ offset ∧ offset < b.buf + b.len

/-- The posted buffers are the free part of the storage. -/
structure PostsFree (rb : RingBuffer) : Prop where
  nonempty : ∀ b ∈ rb.recvBuffers, 0 < b.len
  inBounds : ∀ b ∈ rb.recvBuffers, b.buf + b.len ≤ rb.maxCapacity
  apart : rb.recvBuffers.Pairwise fun b c => ∀ offset, b.Covers offset → ¬c.Covers offset
  unread : ∀ b ∈ rb.recvBuffers, ∀ offset, b.Covers offset → ¬rb.Live offset
  total : (rb.recvBuffers.map WsaBuf.len).sum = rb.getEnquableSize

section Layout

variable {rb : RingBuffer} {queue : List UInt8}

/-- Where the write index stands when the ring is not full. -/
theorem Represents.writeIndex_of_free (h : rb.Represents queue) (hFree : 0 < rb.getEnquableSize) :
    rb.writeIndex = rb.readIndex + rb.usedSize ∨
      rb.writeIndex + rb.maxCapacity = rb.readIndex + rb.usedSize := by
  have hRead := h.read_lt
  have hWrite := h.write_lt
  have hEq := h.write_eq
  rw [getEnquableSize] at hFree
  rw [Nat.mod_eq_of_lt (by omega)] at hEq
  rcases Nat.lt_or_ge (rb.readIndex + rb.usedSize) rb.maxCapacity with hLt | hGe
  · rw [Nat.mod_eq_of_lt hLt] at hEq
    exact .inl hEq
  · rw [Nat.mod_eq_sub_mod hGe, Nat.mod_eq_of_lt (by omega)] at hEq
    right
    omega

theorem Represents.direct_pos (h : rb.Represents queue) (hFree : 0 < rb.getEnquableSize) :
    0 < rb.getDirectEnqueueSize := by
  have hWrite := h.write_lt
  have hLayout := h.writeIndex_of_free hFree
  rw [getDirectEnqueueSize, if_neg hFree.ne']
  rw [getEnquableSize] at hFree
  split_ifs
  · omega
  · omega

/-- An unread byte stands at the read index or after it, or it has wrapped. -/
theorem Represents.live_offset (h : rb.Represents queue) {offset : Nat} (hLive : rb.Live offset) :
    offset < rb.maxCapacity ∧
      (rb.readIndex ≤ offset ∧ offset < rb.readIndex + rb.usedSize ∨
        offset + rb.maxCapacity < rb.readIndex + rb.usedSize) := by
  obtain ⟨i, hi, rfl⟩ := hLive
  have hUsed := h.used
  have hFits := h.fits
  have hRead := h.read_lt
  refine ⟨Nat.mod_lt _ (by omega), ?_⟩
  rcases Nat.lt_or_ge (rb.readIndex + i) rb.maxCapacity with hLt | hGe
  · rw [Nat.mod_eq_of_lt hLt]
    omega
  · rw [Nat.mod_eq_sub_mod hGe, Nat.mod_eq_of_lt (by omega)]
    omega

/-- One buffer when the free part does not wrap, else two. -/
theorem Represents.recvBuffers_eq (h : rb.Represents queue) (hFree : 0 < rb.getEnquableSize) :
    rb.recvBuffers =
      if rb.readIndex ≤ rb.writeIndex ∧ 0 < rb.readIndex then
        [⟨rb.writeIndex, rb.maxCapacity - rb.writeIndex⟩, ⟨0, rb.readIndex⟩]
      else [⟨rb.writeIndex, rb.maxCapacity - rb.usedSize⟩] := by
  have hRead := h.read_lt
  have hWrite := h.write_lt
  have hSize : rb.getEnquableSize = rb.maxCapacity - rb.usedSize := rfl
  unfold recvBuffers getDirectEnqueueSize
  rw [if_neg hFree.ne', hSize]
  rcases h.writeIndex_of_free hFree with hFront | hBehind
  · rw [if_pos (show rb.readIndex ≤ rb.writeIndex by omega)]
    rcases Nat.eq_zero_or_pos rb.readIndex with hZero | hPos
    · rw [if_pos (by omega), if_neg (by omega)]
      congr 2
      omega
    · rw [if_neg (by omega), if_pos ⟨by omega, hPos⟩]
      congr 3
      omega
  · rw [if_neg (show ¬rb.readIndex ≤ rb.writeIndex by omega), if_pos (by omega),
      if_neg (by omega)]
    congr 2
    omega

theorem Represents.postsFree (h : rb.Represents queue) (hFree : 0 < rb.getEnquableSize) :
    rb.PostsFree := by
  have hRead := h.read_lt
  have hWrite := h.write_lt
  have hLayout := h.writeIndex_of_free hFree
  have hBuffers := h.recvBuffers_eq hFree
  have hSize : rb.getEnquableSize = rb.maxCapacity - rb.usedSize := rfl
  rw [hSize] at hFree
  split_ifs at hBuffers with hTwo
  · constructor
    · simp only [hBuffers, List.mem_cons, List.not_mem_nil, or_false, forall_eq_or_imp,
        forall_eq]
      omega
    · simp only [hBuffers, List.mem_cons, List.not_mem_nil, or_false, forall_eq_or_imp,
        forall_eq]
      omega
    · rw [hBuffers]
      refine List.pairwise_pair.mpr fun offset hFront hBack => ?_
      simp only [WsaBuf.Covers] at hFront hBack
      omega
    · simp only [hBuffers, List.mem_cons, List.not_mem_nil, or_false, forall_eq_or_imp,
        forall_eq, WsaBuf.Covers]
      refine ⟨fun offset hCovers hLive => ?_, fun offset hCovers hLive => ?_⟩
      · have hOffset := h.live_offset hLive
        omega
      · have hOffset := h.live_offset hLive
        omega
    · simp only [hBuffers, List.map_cons, List.map_nil, List.sum_cons, List.sum_nil]
      omega
  · constructor
    · simpa [hBuffers] using hFree
    · simp only [hBuffers, List.mem_cons, List.not_mem_nil, or_false, forall_eq]
      omega
    · rw [hBuffers]
      exact List.pairwise_singleton _ _
    · simp only [hBuffers, List.mem_cons, List.not_mem_nil, or_false, forall_eq, WsaBuf.Covers]
      intro offset hCovers hLive
      have hOffset := h.live_offset hLive
      omega
    · rw [hBuffers, hSize]
      simp

end Layout

section Commit

variable {rb : RingBuffer} {queue : List UInt8}

/-- The kernel stores no more than was offered. -/
theorem scatter_length {block block' : Block} {bufs : List WsaBuf} {bytes : List UInt8}
    (h : scatter block bufs bytes = some block') : bytes.length ≤ (bufs.map WsaBuf.len).sum := by
  induction bufs generalizing block bytes with
  | nil =>
      rw [scatter] at h
      split_ifs at h with hNil
      simp [hNil]
  | cons b bufs ih =>
      obtain ⟨middle, -, hRest⟩ := Option.bind_eq_some_iff.mp h
      have hDrop := ih hRest
      rw [List.length_drop] at hDrop
      rw [List.map_cons, List.sum_cons]
      omega

theorem Represents.recvBuffers_total (h : rb.Represents queue) :
    (rb.recvBuffers.map WsaBuf.len).sum = rb.getEnquableSize := by
  rcases Nat.eq_zero_or_pos rb.getEnquableSize with hFull | hFree
  · simp [recvBuffers, getDirectEnqueueSize, hFull]
  · exact (h.postsFree hFree).total

theorem scatter_nil {block block' : Block} {bufs : List WsaBuf}
    (h : scatter block bufs [] = some block') : block' = block := by
  induction bufs generalizing block with
  | nil =>
      cases h
      rfl
  | cons b bufs ih =>
      obtain ⟨middle, hWrite, hRest⟩ := Option.bind_eq_some_iff.mp h
      rw [List.take_nil, writeBytes] at hWrite
      rw [List.drop_nil] at hRest
      split_ifs at hWrite
      cases hWrite
      rw [ih hRest]
      simp

/-- What the kernel stores does not change what the ring holds. -/
theorem Represents.receive_eq_some (h : rb.Represents queue) {bytes : List UInt8} {rb' : RingBuffer}
    (hReceive : rb.receive bytes = some rb') :
    bytes.length ≤ rb.getEnquableSize ∧ rb'.Represents queue ∧ rb'.maxCapacity = rb.maxCapacity := by
  obtain ⟨block, hScatter, hRing⟩ := Option.bind_eq_some_iff.mp hReceive
  cases hRing
  have hLength := h.recvBuffers_total ▸ scatter_length hScatter
  refine ⟨hLength, ?_, rfl⟩
  by_cases hNil : bytes = []
  · subst hNil
    rwa [scatter_nil hScatter]
  · have hPos := List.length_pos_of_ne_nil hNil
    have hUsed := h.used
    rw [getEnquableSize] at hLength
    obtain ⟨middle, block', hFirst, hSecond, hScatter'⟩ := 
      h.scatter_eq (show queue.length + bytes.length ≤ rb.maxCapacity by omega) (by omega)
    obtain rfl : block' = block := by simpa using hScatter'.symm.trans hScatter
    exact h.fill (by omega) (by omega) hFirst hSecond

/-- `MoveWrite` takes over bytes that the storage already holds. -/
theorem Represents.moveWrite (h : rb.Represents queue) (size : Nat) :
    ∃ more, (rb.moveWrite size).2.Represents (queue ++ more) ∧
      (rb.moveWrite size).2.maxCapacity = rb.maxCapacity := by
  have hUsed := h.used
  have hFits := h.fits
  obtain ⟨n, hn⟩ : ∃ n, min size rb.getEnquableSize = n := ⟨_, rfl⟩
  have hMove := h.moveWrite_eq hn
  rw [getEnquableSize] at hn
  rw [hMove]
  refine ⟨slice rb.buffer rb.maxCapacity (rb.readIndex + rb.usedSize) n, ?_, rfl⟩
  exact {
    storage := h.storage
    used := by simp [hUsed]
    fits := by
      rw [List.length_append, slice_length]
      change _ ≤ rb.maxCapacity
      omega
    read_lt := h.read_lt
    write_lt := by
      apply mod_lt_max
      intro hZero
      have hWrite := h.write_lt
      simp only [hZero] at hWrite hn
      omega
    write_eq := by
      change (rb.writeIndex + n) % rb.maxCapacity % rb.maxCapacity =
        (rb.readIndex + (rb.usedSize + n)) % rb.maxCapacity
      rw [Nat.mod_mod, Nat.add_mod, h.write_eq, ← Nat.add_mod, Nat.add_assoc]
    content := by
      change slice rb.buffer rb.maxCapacity rb.readIndex (rb.usedSize + n) = _
      rw [slice_add, h.content] }

/-- A ring in use holds some bytes, and its capacity stays. -/
structure InUse (capacity : Nat) (rb : RingBuffer) : Prop where
  represents : ∃ queue, rb.Represents queue
  capacity_eq : rb.maxCapacity = capacity

theorem InUse.use {capacity : Nat} {rb rb' : RingBuffer} {u : RingUse} (h : rb.InUse capacity)
    (hUse : rb.use u = some rb') : rb'.InUse capacity := by
  obtain ⟨⟨queue, hQueue⟩, rfl⟩ := h
  cases u with
  | call op =>
      obtain ⟨reply, next, queue', hPerform, -, hNext⟩ :=
        Describes.perform op (⟨hQueue, rfl⟩ : rb.Describes ⟨queue, hQueue.fits⟩)
      rw [RingBuffer.use, hPerform] at hUse
      cases hUse
      exact ⟨⟨_, hNext.represents⟩, hNext.capacity_eq⟩
  | moveWrite size =>
      cases hUse
      obtain ⟨more, hMore, hCapacity⟩ := hQueue.moveWrite size
      exact ⟨⟨_, hMore⟩, hCapacity⟩
  | fill bytes =>
      obtain ⟨-, hNext, hCapacity⟩ := hQueue.receive_eq_some hUse
      exact ⟨⟨queue, hNext⟩, hCapacity⟩

theorem inUse_of_reachable {capacity : Nat} {rb : RingBuffer}
    (h : Reachable (Takes use) (fun _ _ => True) (init capacity) rb) : rb.InUse capacity :=
  h.invariant ⟨⟨[], init_represents capacity⟩, rfl⟩ fun _ hInv _ hStep => hInv.use hStep

/-- Storing through the posted buffers and moving the write index is an `Enqueue`. -/
theorem Represents.receive_eq_enqueue (h : rb.Represents queue) (hFree : 0 < rb.getEnquableSize)
    {bytes : List UInt8} (hRoom : bytes.length ≤ rb.getEnquableSize) :
    ∃ filled rb', rb.receive bytes = some filled ∧
      filled.moveWrite bytes.length = (bytes.length, rb') ∧
      rb.enqueue bytes = some (bytes.length, rb') ∧ rb'.Represents (queue ++ bytes) := by
  have hUsed := h.used
  have hSize : rb.getEnquableSize = rb.maxCapacity - rb.usedSize := rfl
  have hAll : bytes.take (rb.maxCapacity - queue.length) = bytes :=
    List.take_of_length_le (by omega)
  obtain ⟨middle, block, hFirst, hSecond, hScatter⟩ :=
    h.scatter_eq (show queue.length + bytes.length ≤ rb.maxCapacity by omega) (by omega)
  have hFilled := h.fill (by omega) (by omega) hFirst hSecond
  have hMove := hFilled.moveWrite_eq (show min bytes.length rb.getEnquableSize = bytes.length by omega)
  refine ⟨{ rb with buffer := block }, _, by rw [RingBuffer.receive, hScatter]; rfl, hMove, ?_,
    h.append (by omega) (by omega) hFirst hSecond⟩
  by_cases hNil : bytes = []
  · subst hNil
    have hStill := h.moveWrite_eq (Nat.zero_min rb.getEnquableSize)
    rw [h.enqueue_nothing hAll, scatter_nil hScatter]
    exact congrArg some hStill
  · obtain ⟨middle', block', hFirst', hSecond', hEnqueue⟩ := h.enqueue_eq hAll hNil
    obtain rfl : middle' = middle := by simpa using hFirst'.symm.trans hFirst
    obtain rfl : block' = block := by simpa using hSecond'.symm.trans hSecond
    exact hEnqueue

/-- Whatever the ring was used for, what `RecvPost` posts is its free part, and a transfer of
any size is an `Enqueue` of the bytes that arrived. -/
theorem zeroCopy_of_reachable {capacity : Nat}
    (h : Reachable (Takes use) (fun _ _ => True) (init capacity) rb) (hFree : 0 < rb.getEnquableSize) :
    rb.maxCapacity = capacity ∧ rb.PostsFree ∧ ∃ queue, rb.Represents queue ∧
      ∀ bytes : List UInt8, bytes.length ≤ rb.getEnquableSize →
        ∃ filled rb', rb.receive bytes = some filled ∧
          filled.moveWrite bytes.length = (bytes.length, rb') ∧
          rb.enqueue bytes = some (bytes.length, rb') ∧ rb'.Represents (queue ++ bytes) := by
  obtain ⟨⟨queue, hQueue⟩, hCapacity⟩ := inUse_of_reachable h
  exact ⟨hCapacity, hQueue.postsFree hFree, queue, hQueue, fun _ hRoom => hQueue.receive_eq_enqueue hFree hRoom⟩

/-- A ring of five bytes, wrapped: one byte is free at each end of the storage. -/
theorem zeroCopy_of_wrapped : ∃ rb, exec use (init 5)
      [.call (.enqueue [1, 2, 3, 4]), .call (.dequeue 1)] = some rb ∧ rb.recvBuffers = [⟨4, 1⟩, ⟨0, 1⟩] ∧
      rb.PostsFree := by
  obtain ⟨rb, hRun, hBuffers, hFree⟩ : ∃ rb, exec use (init 5)
      [.call (.enqueue [1, 2, 3, 4]), .call (.dequeue 1)] = some rb ∧
      rb.recvBuffers = [⟨4, 1⟩, ⟨0, 1⟩] ∧ 0 < rb.getEnquableSize := ⟨_, rfl, by decide, by decide⟩
  exact ⟨rb, hRun, hBuffers, (zeroCopy_of_reachable (reachable_of_exec hRun) hFree).2.1⟩

end Commit

end RingBuffer
end NfNetwork.Buffer
