import NfNetwork.Machinery.HeaderFraming
import NfNetwork.Buffer.RingBufferQueue
import NfNetwork.Lan.Receive
import NfNetwork.Packet.Contents

/-! The LAN reassembly loop as a greedy parser, and which streams make it write
outside a packet or deliver a shortened one. The destination holds fewer bytes
than the configured bound may allow. -/
namespace NfNetwork.Lan

open Machinery Buffer

theorem readUInt16_append {bytes : List UInt8} (more : List UInt8)
    (h : lanLayout.headerSize ≤ bytes.length) :
    readUInt16 (bytes ++ more) 0 = readUInt16 bytes 0 := by
  have hGet (i : Nat) (hi : i < 2) : (bytes ++ more).getD i 0 = bytes.getD i 0 := by
    have hLt : i < bytes.length := Nat.lt_of_lt_of_le hi h
    simp only [List.getD_eq_getElem?_getD, List.getElem?_append_left hLt]
  rw [readUInt16, readUInt16, hGet 0 (by decide), hGet 1 (by decide)]

/-- What reaches the handler: the announced length, and the packet's body. -/
structure Delivery where
  length : Nat
  bodySize : Nat
  body : List UInt8

/-- The body that a complete frame becomes: copied up to the capacity, readable
up to the room. -/
def judgeFrame (length : Nat) (frame : List UInt8) : Except RecvStop Delivery :=
  if lanLayout.bodyCapacity < length then .error .outOfBounds
  else .ok ⟨length, min lanLayout.room length,
    (frame.drop lanLayout.headerSize).take lanLayout.room⟩

/-- The greedy rule for an unbounded stream. -/
def rule (core : LanCore) : HeaderRule Nat Delivery RecvStop where
  headerSize := lanLayout.headerSize
  headerSize_pos := by decide
  read bytes := readUInt16 bytes 0
  read_append := readUInt16_append
  bodySize := id
  reject length :=
    if core.serverComponentOption.maxPacketBodyLength < length then some .cancelationIo else none
  judge := judgeFrame

/-- An open session whose queue holds exactly `left`. -/
structure RecvSession.Holding (session : RecvSession) (left : List UInt8) : Prop where
  queue : session.recvQueue.Represents left
  capacity : session.recvQueue.maxCapacity = lanSessionRecvQueueSize

/-- The deliveries made so far. -/
def RecvSession.deliveries (session : RecvSession) : List Delivery :=
  session.received.map fun r => ⟨r.1, r.2.getBodySize, r.2.body⟩

/-- A session read as a parser. -/
def reading : Reading RecvSession Delivery RecvStop where
  outputs := RecvSession.deliveries
  Holds := RecvSession.Holding
  Ended _ _ := True

section Passes

variable {core : LanCore} {pool : Nat → lanLayout.Memory} {session : RecvSession}
  {left : List UInt8}

/-- A complete frame is copied whatever its length; past the capacity the copy
leaves `mBuffer`. -/
theorem completePacket_follows (pool : Nat → lanLayout.Memory) (h : session.Holding left)
    (hFrame : (rule core).CompleteFrame left) :
    reading.Follows session left ((rule core).next left)
      (completePacket pool
        { session with recvQueue := (session.recvQueue.moveRead lanLayout.headerSize).2 }
        (readUInt16 left 0)) := by
  obtain ⟨-, hBody, hCapacity⟩ := h.queue.moveRead lanLayout.headerSize
  obtain ⟨recvQueue, hDequeue, hQueue, hCapacity'⟩ := hBody.dequeue (readUInt16 left 0)
  have hFrameSize : (rule core).frameSize left = lanLayout.headerSize + readUInt16 left 0 := rfl
  have hWhole := hFrame.whole
  have hSize : ((left.drop lanLayout.headerSize).take (readUInt16 left 0)).length =
      readUInt16 left 0 := by
    rw [List.length_take, List.length_drop]
    omega
  have hRegion : (left.take ((rule core).frameSize left)).drop lanLayout.headerSize =
      (left.drop lanLayout.headerSize).take (readUInt16 left 0) := by
    rw [hFrameSize, List.drop_take, Nat.add_sub_cancel_left]
  rw [List.drop_drop, ← hFrameSize] at hQueue
  have hHolding (allocated : Nat) (received : List (Nat × Packet lanLayout)) :
      RecvSession.Holding { session with recvQueue, allocated, received }
        (left.drop ((rule core).frameSize left)) :=
    ⟨hQueue, hCapacity'.trans (hCapacity.trans h.capacity)⟩
  rw [hFrame.next_eq, show (rule core).judge = judgeFrame from rfl,
    show (rule core).read left = readUInt16 left 0 from rfl]
  simp only [judgeFrame, hRegion]
  generalize (left.drop lanLayout.headerSize).take (readUInt16 left 0) = bytes at hDequeue hSize ⊢
  rcases Nat.lt_or_ge lanLayout.bodyCapacity (readUInt16 left 0) with hOver | hInside
  · have hStore := Packet.store_body_eq_none (pool session.allocated)
      (show lanLayout.bodyCapacity < bytes.length by omega)
    simp only [completePacket, hDequeue, hStore, if_pos hOver]
    exact .stop rfl trivial
  · obtain ⟨p, hStore, hContents, hBodySize⟩ :=
      Packet.store_body (pool session.allocated)
        (show bytes.length ≤ lanLayout.bodyCapacity by omega)
    simp only [completePacket, hDequeue, hStore, if_neg (Nat.not_lt.mpr hInside)]
    refine .emit ?_ (hHolding _ _)
    rw [← hContents, ← hSize, ← hBodySize]
    exact List.map_append

theorem recvPass_follows (pool : Nat → lanLayout.Memory) (h : session.Holding left) :
    reading.Follows session left ((rule core).toFramer.next left)
      (recvPass core pool session) := by
  have hUsed : session.recvQueue.getUsedSize = left.length := h.queue.used
  rcases Nat.lt_or_ge left.length lanLayout.headerSize with hShort | hHeader
  · have hWait : (rule core).toFramer.next left = .wait :=
      (HeaderRule.Stage.short hShort).next_eq
    rw [hWait, show recvPass core pool session = .leave (session, none) by
      simp only [recvPass, hUsed, hShort, ↓reduceIte]]
    exact .wait
  have hHead : readUInt16 (left.take lanLayout.headerSize) 0 = readUInt16 left 0 := by
    conv_rhs => rw [← List.take_append_drop lanLayout.headerSize left]
    rw [readUInt16_append _ (by rw [List.length_take]; omega)]
  have hPass : recvPass core pool session =
      if core.serverComponentOption.maxPacketBodyLength < readUInt16 left 0 then
        .leave (session.cancelationIo, some .cancelationIo)
      else if left.length < lanLayout.headerSize + readUInt16 left 0 then .leave (session, none)
      else completePacket pool
        { session with recvQueue := (session.recvQueue.moveRead lanLayout.headerSize).2 }
        (readUInt16 left 0) := by
    simp only [recvPass, hUsed, Nat.not_lt.mpr hHeader, ↓reduceIte, h.queue.peek, hHead]
  rw [hPass]
  by_cases hRejects : core.serverComponentOption.maxPacketBodyLength < readUInt16 left 0
  · have hStop : (rule core).toFramer.next left = .stop .cancelationIo :=
      (HeaderRule.Stage.rejected hHeader (if_pos hRejects)).next_eq
    rw [hStop, if_pos hRejects]
    exact .stop rfl trivial
  have hAccepted : (rule core).reject ((rule core).read left) = none := if_neg hRejects
  rw [if_neg hRejects]
  rcases Nat.lt_or_ge left.length (lanLayout.headerSize + readUInt16 left 0) with hShort | hWhole
  · have hWait : (rule core).toFramer.next left = .wait :=
      (HeaderRule.Stage.incomplete hHeader hAccepted hShort).next_eq
    rw [hWait, if_pos hShort]
    exact .wait
  · rw [if_neg (Nat.not_lt.mpr hWhole)]
    exact completePacket_follows pool h ⟨hHeader, hAccepted, hWhole⟩

/-- One completion parses the left-over bytes followed by the new ones. -/
theorem recvCompletion_parses (core : LanCore) (pool : Nat → lanLayout.Memory)
    (h : session.Holding left) {bytes : List UInt8} (hBytes : bytes ≠ [])
    (hRoom : bytes.length ≤ session.recvQueue.getEnquableSize) {passes : Nat}
    (hPasses : lanSessionRecvQueueSize < passes) :
    ∃ session', recvCompletion core pool passes session bytes =
        some (session', ((rule core).toFramer.parse (left ++ bytes)).stopped) ∧
      reading.Reached session session' ((rule core).toFramer.parse (left ++ bytes)) := by
  have hFits : left.length + bytes.length ≤ session.recvQueue.maxCapacity := by
    have hUsed := h.queue.used
    have hLeft := h.queue.fits
    rw [RingBuffer.getEnquableSize] at hRoom
    omega
  obtain ⟨recvQueue, hReceive, hMoved, hQueue, hCapacity⟩ := h.queue.receive hFits hBytes
  generalize hMove : recvQueue.moveWrite bytes.length = moved at hMoved hQueue hCapacity
  obtain ⟨movedSize, movedQueue⟩ := moved
  have hHolding : RecvSession.Holding { session with recvQueue := movedQueue } (left ++ bytes) :=
    ⟨hQueue, hCapacity.trans h.capacity⟩
  have hEnough : (left ++ bytes).length < passes := by
    rw [List.length_append]
    rw [h.capacity] at hFits
    exact Nat.lt_of_le_of_lt hFits hPasses
  obtain ⟨session', hLoop, hReached⟩ :=
    Reading.loop_eq_parse (F := (rule core).toFramer) (R := reading)
      (fun h => recvPass_follows pool h) hHolding hEnough
  have hSize : movedSize = bytes.length := hMoved
  refine ⟨session', ?_, hReached.outputs, hReached.waiting, hReached.ended⟩
  simp only [recvCompletion, hReceive, Option.bind_eq_bind, Option.bind_some, networkRecvCompleted,
    hMove, hSize, Nat.lt_irrefl, ↓reduceIte, hLoop]

end Passes

end NfNetwork.Lan
