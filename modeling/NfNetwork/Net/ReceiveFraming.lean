import NfNetwork.Machinery.HeaderFraming
import NfNetwork.Buffer.RingBufferQueue
import NfNetwork.Net.Receive
import NfNetwork.Packet.Contents

/-! The reassembly loop of `NetworkRecvCompleted` is a greedy parser. `framing`
states the rule on an unbounded stream; `recvCompletion_parses` says that one
completion, whatever the ring looks like, parses the left-over bytes followed by
the new ones. -/
namespace NfNetwork.Net

open Machinery Buffer

theorem NetHeader.ofBytes_append {bytes : List UInt8} (more : List UInt8)
    (h : netLayout.headerSize ≤ bytes.length) :
    NetHeader.ofBytes (bytes ++ more) = NetHeader.ofBytes bytes := by
  have hGet (i : Nat) (hi : i < 5) : (bytes ++ more).getD i 0 = bytes.getD i 0 := by
    have hLt : i < bytes.length := Nat.lt_of_lt_of_le hi h
    simp only [List.getD_eq_getElem?_getD, List.getElem?_append_left hLt]
  simp only [NetHeader.ofBytes, readUInt16, hGet 0 (by omega), hGet 1 (by omega),
    hGet 2 (by omega), hGet 3 (by omega), hGet 4 (by omega)]

theorem NetHeader.ofBytes_take {bytes : List UInt8} {count : Nat}
    (hCount : netLayout.headerSize ≤ count) (h : netLayout.headerSize ≤ bytes.length) :
    NetHeader.ofBytes (bytes.take count) = NetHeader.ofBytes bytes := by
  have hTake : netLayout.headerSize ≤ (bytes.take count).length := by
    rw [List.length_take]
    omega
  conv_rhs => rw [← List.take_append_drop count bytes]
  exact (NetHeader.ofBytes_append _ hTake).symm

section Framing

variable (option : ServerComponentOption)

/-- The two header checks that close a session. -/
abbrev RejectsHeader (header : NetHeader) : Prop :=
  header.code ≠ option.packetCode ∨ option.maxPacketBodyLength < header.length ∨
    netLayout.bodyCapacity ≤ header.length

/-- What a complete frame under an accepted header leads to. -/
def judgeFrame (header : NetHeader) (frame : List UInt8) : Except RecvStop (List UInt8) :=
  if netLayout.room < header.length then .error .failedMoveBodyWritePos
  else
    match packetDecode option.packetEncodeKey header.randKey (frame.drop 4) with
    | [] => .error .cancelationIo
    | checkSum :: body =>
      if checkSum = calculateCheckSum body then .ok body else .error .cancelationIo

/-- The greedy reference rule for an unbounded stream. -/
def rule : HeaderRule NetHeader (List UInt8) RecvStop where
  headerSize := netLayout.headerSize
  headerSize_pos := by decide
  read := NetHeader.ofBytes
  read_append := NetHeader.ofBytes_append
  bodySize := NetHeader.length
  reject header := if RejectsHeader option header then some .cancelationIo else none
  judge := judgeFrame option

/-- The parsing rule of the NET receiver, as a framer. -/
def framing : Framer (List UInt8) RecvStop := (rule option).toFramer

variable {option}

theorem reject_eq_none {header : NetHeader} :
    (rule option).reject header = none ↔ ¬RejectsHeader option header := by
  simp only [rule]
  split_ifs with h <;> simp [h]

theorem reject_eq_some {header : NetHeader} {reason : RecvStop}
    (h : (rule option).reject header = some reason) :
    RejectsHeader option header ∧ reason = .cancelationIo := by
  simp only [rule] at h
  split_ifs at h with hRejects
  cases h
  exact ⟨hRejects, rfl⟩

/-- A frame is delivered when it fits a packet and its checksum is right. -/
theorem judgeFrame_eq_ok {header : NetHeader} {frame body : List UInt8} :
    judgeFrame option header frame = .ok body ↔ header.length ≤ netLayout.room ∧
      packetDecode option.packetEncodeKey header.randKey (frame.drop 4) =
        calculateCheckSum body :: body := by
  unfold judgeFrame
  split_ifs with hRoom
  · simp [Nat.not_le.mpr hRoom]
  cases hDecode : packetDecode option.packetEncodeKey header.randKey (frame.drop 4) with
  | nil => simp
  | cons checkSum plain =>
      dsimp only
      split_ifs with hCheck
      · simp only [Except.ok.injEq, List.cons.injEq, Nat.le_of_not_lt hRoom, true_and]
        constructor
        · rintro rfl
          exact ⟨hCheck, rfl⟩
        · exact fun h => h.2
      · simp only [List.cons.injEq, false_iff]
        rintro ⟨-, rfl, rfl⟩
        exact hCheck rfl

/-- The only crash is the frame that does not fit a packet. -/
theorem judgeFrame_eq_error {header : NetHeader} {frame : List UInt8} {reason : RecvStop}
    (h : judgeFrame option header frame = .error reason) :
    reason.isCrash = true ↔ netLayout.room < header.length := by
  unfold judgeFrame at h
  split_ifs at h with hRoom
  · cases h
    simp [hRoom, RecvStop.isCrash]
  · have hClose : reason = .cancelationIo := by
      split at h
      · cases h
        rfl
      · split_ifs at h
        cases h
        rfl
    subst hClose
    simp [hRoom, RecvStop.isCrash]

end Framing

/-- An open session whose queue holds exactly `left`. -/
structure RecvSession.Holding (session : RecvSession) (left : List UInt8) : Prop where
  queue : session.recvQueue.Represents left
  capacity : session.recvQueue.maxCapacity = netSessionRecvQueueSize
  opened : session.isCloseSocket = false

/-- The bodies given to `OnReceived` so far. -/
def RecvSession.bodies (session : RecvSession) : List (List UInt8) :=
  session.received.map Packet.body

/-- A session read as a parser: the bodies delivered, the bytes it still holds,
and that it is closed exactly when framing ended with `CancelationIO`. -/
def reading : Reading RecvSession (List UInt8) RecvStop where
  outputs := RecvSession.bodies
  Holds := RecvSession.Holding
  Ended reason session := session.isCloseSocket = decide (reason = .cancelationIo)

section Passes

variable {option : ServerComponentOption} {pool : Nat → netLayout.Memory}
  {session : RecvSession} {left : List UInt8}

/-- A complete frame under an accepted header is handled as the rule judges it.
The copy stays inside `mBuffer` for every length below the body capacity; the
write position does not follow it past the room. -/
theorem completePacket_follows (pool : Nat → netLayout.Memory) (h : session.Holding left)
    (hFrame : (rule option).CompleteFrame left) :
    reading.Follows session left ((rule option).next left)
      (completePacket option pool session (.ofBytes left) ((rule option).frameSize left)) := by
  have hLength : (NetHeader.ofBytes left).length < netLayout.bodyCapacity :=
    Nat.lt_of_not_le fun hLe => reject_eq_none.mp hFrame.accepted (.inr (.inr hLe))
  have hFrameSize : (rule option).frameSize left =
      netLayout.headerSize + (NetHeader.ofBytes left).length := rfl
  obtain ⟨recvQueue, hDequeue, hQueue, hCapacity⟩ := h.queue.dequeue ((rule option).frameSize left)
  have hSize : (left.take ((rule option).frameSize left)).length = (rule option).frameSize left := by
    rw [List.length_take, Nat.min_eq_left hFrame.whole]
  have hHolding (allocated : Nat) (received : List (Packet netLayout)) :
      RecvSession.Holding { session with recvQueue, allocated, received }
        (left.drop ((rule option).frameSize left)) :=
    ⟨hQueue, hCapacity.trans h.capacity, h.opened⟩
  rw [hFrame.next_eq, show (rule option).judge = judgeFrame option from rfl,
    show (rule option).read left = .ofBytes left from rfl]
  generalize left.take ((rule option).frameSize left) = frame at hDequeue hSize ⊢
  generalize NetHeader.ofBytes left = header at hLength hFrameSize ⊢
  rcases Nat.lt_or_ge netLayout.room header.length with hOver | hRoom
  · obtain ⟨p, hStore, hMove⟩ := Packet.store_initial (pool session.allocated)
      (show 0 + frame.length ≤ netLayout.headerSize + netLayout.bodyCapacity by omega)
    have hMoved : (p.moveBodyWritePos header.length).1 ≠ header.length := by
      rw [hMove]
      omega
    simp only [completePacket, hDequeue, hStore, hSize, ne_eq, not_true_eq_false, ↓reduceIte,
      hMoved, not_false_eq_true, judgeFrame, hOver]
    exact .stop rfl h.opened
  · obtain ⟨p, p', hStore, hMove, hHolds⟩ :=
      Packet.store_header_holds (pool session.allocated) (hSize.trans hFrameSize) hRoom
    obtain ⟨recvPacket, checkSum, body, hPlain, hDecode, hBody, -⟩ :=
      hHolds.doDecode rfl option.packetEncodeKey header.randKey
    have hRegion : (frame.take netLayout.headerSize).drop 4 ++ frame.drop netLayout.headerSize =
        frame.drop 4 := by
      rw [List.drop_take, show frame.drop netLayout.headerSize = (frame.drop 4).drop 1 by
        rw [List.drop_drop]; rfl]
      exact List.take_append_drop 1 _
    rw [hRegion] at hPlain
    simp only [completePacket, hDequeue, hStore, hSize, ne_eq, not_true_eq_false, ↓reduceIte,
      hMove, hDecode, judgeFrame, Nat.not_lt.mpr hRoom, hPlain]
    by_cases hCheck : checkSum = calculateCheckSum body
    · simp only [hCheck, decide_true, ↓reduceIte]
      exact .emit (by rw [← hBody]; exact List.map_append) (hHolding _ _)
    · simp only [hCheck, decide_false, ↓reduceIte]
      exact .stop rfl rfl

theorem recvPass_follows (pool : Nat → netLayout.Memory) (h : session.Holding left) :
    reading.Follows session left ((framing option).next left) (recvPass option pool session) := by
  have hUsed : session.recvQueue.getUsedSize = left.length := h.queue.used
  rcases Nat.lt_or_ge left.length netLayout.headerSize with hShort | hHeader
  · have hWait : (framing option).next left = .wait :=
      (HeaderRule.Stage.short hShort).next_eq
    rw [hWait, show recvPass option pool session = .leave (session, none) by
      simp only [recvPass, hUsed, hShort, ↓reduceIte]]
    exact .wait
  have hHead := NetHeader.ofBytes_take (Nat.le_refl _) hHeader
  have hPass : recvPass option pool session =
      if RejectsHeader option (.ofBytes left) then
        .leave (session.cancelationIo, some .cancelationIo)
      else if left.length < netLayout.headerSize + (NetHeader.ofBytes left).length then
        .leave (session, none)
      else completePacket option pool session (.ofBytes left)
        (netLayout.headerSize + (NetHeader.ofBytes left).length) := by
    simp only [recvPass, hUsed, Nat.not_lt.mpr hHeader, ↓reduceIte, h.queue.peek, hHead,
      RejectsHeader, ite_or]
  rw [hPass]
  by_cases hRejects : RejectsHeader option (.ofBytes left)
  · have hStop : (framing option).next left = .stop .cancelationIo :=
      (HeaderRule.Stage.rejected hHeader (if_pos hRejects)).next_eq
    rw [hStop, if_pos hRejects]
    exact .stop rfl rfl
  have hAccepted := reject_eq_none.mpr hRejects
  rw [if_neg hRejects]
  rcases Nat.lt_or_ge left.length (netLayout.headerSize + (NetHeader.ofBytes left).length)
    with hShort | hWhole
  · have hWait : (framing option).next left = .wait :=
      (HeaderRule.Stage.incomplete hHeader hAccepted hShort).next_eq
    rw [hWait, if_pos hShort]
    exact .wait
  · rw [if_neg (Nat.not_lt.mpr hWhole)]
    exact completePacket_follows pool h ⟨hHeader, hAccepted, hWhole⟩

/-- Bytes that are waited on never fill the queue, so `RecvPost` posts again. -/
theorem length_lt_of_wait {bytes : List UInt8} (h : (framing option).next bytes = .wait) :
    bytes.length < netSessionRecvQueueSize := by
  cases HeaderRule.stage_of_next h with
  | short hShort => exact Nat.lt_trans hShort (show 5 < 8 * 1024 by decide)
  | incomplete hHeader hAccepted hShort =>
      have hLength : (NetHeader.ofBytes bytes).length < netLayout.bodyCapacity :=
        Nat.lt_of_not_le fun hLe => reject_eq_none.mp hAccepted (.inr (.inr hLe))
      exact Nat.lt_trans hShort (Nat.lt_of_lt_of_le (Nat.add_lt_add_left hLength _)
        (show 5 + 4 * 1024 ≤ 8 * 1024 by decide))

/-- A session that waits on what it holds has room, so `RecvPost` posts again. -/
theorem RecvSession.Holding.enquable (h : session.Holding left)
    (hWaiting : (framing option).next left = .wait) : 0 < session.recvQueue.getEnquableSize := by
  have hLt := length_lt_of_wait hWaiting
  rw [RingBuffer.getEnquableSize, h.queue.used, h.capacity]
  exact Nat.sub_pos_of_lt hLt

theorem recvPost_of_enquable (h : 0 < session.recvQueue.getEnquableSize) :
    recvPost session = session := by
  rw [recvPost, if_neg (Nat.pos_iff_ne_zero.mp h)]

/-- What a completion has stored is moved whole, and the loop, wherever the ring wraps,
parses the left-over bytes followed by the new ones; it terminates. -/
theorem networkRecvCompleted_parses (option : ServerComponentOption)
    (pool : Nat → netLayout.Memory) (h : session.Holding left) {bytes : List UInt8}
    (hBytes : bytes ≠ []) (hRoom : bytes.length ≤ session.recvQueue.getEnquableSize)
    {passes : Nat} (hPasses : netSessionRecvQueueSize < passes) :
    ∃ recvQueue session', session.recvQueue.receive bytes = some recvQueue ∧
      (recvQueue.moveWrite bytes.length).1 = bytes.length ∧
      networkRecvCompleted option pool passes { session with recvQueue } bytes.length =
        some (session', ((framing option).parse (left ++ bytes)).stopped) ∧
      reading.Reached session session' ((framing option).parse (left ++ bytes)) := by
  have hFits : left.length + bytes.length ≤ session.recvQueue.maxCapacity := by
    have hUsed := h.queue.used
    have hLeft := h.queue.fits
    rw [RingBuffer.getEnquableSize] at hRoom
    omega
  obtain ⟨recvQueue, hReceive, hMoved, hQueue, hCapacity⟩ := h.queue.receive hFits hBytes
  refine ⟨recvQueue, ?_⟩
  generalize hMove : recvQueue.moveWrite bytes.length = moved at hMoved hQueue hCapacity
  obtain ⟨movedSize, movedQueue⟩ := moved
  have hHolding : RecvSession.Holding { session with recvQueue := movedQueue } (left ++ bytes) :=
    ⟨hQueue, hCapacity.trans h.capacity, h.opened⟩
  have hEnough : (left ++ bytes).length < passes := by
    rw [List.length_append]
    rw [h.capacity] at hFits
    exact Nat.lt_of_le_of_lt hFits hPasses
  obtain ⟨session', hLoop, hReached⟩ := Reading.loop_eq_parse (F := framing option) (R := reading)
    (fun h => recvPass_follows pool h) hHolding hEnough
  have hSize : movedSize = bytes.length := hMoved
  refine ⟨session', hReceive, hMoved, ?_, hReached.outputs, hReached.waiting, hReached.ended⟩
  simp only [networkRecvCompleted, hMove, hSize, ne_eq, not_true_eq_false, ↓reduceIte, hLoop]

/-- One completion, with the receive that is posted after it, parses them. -/
theorem recvCompletion_parses (option : ServerComponentOption) (pool : Nat → netLayout.Memory)
    (h : session.Holding left) {bytes : List UInt8}
    (hBytes : bytes ≠ []) (hRoom : bytes.length ≤ session.recvQueue.getEnquableSize)
    {passes : Nat} (hPasses : netSessionRecvQueueSize < passes) :
    ∃ session', recvCompletion option pool passes session bytes =
        some (session', ((framing option).parse (left ++ bytes)).stopped) ∧
      reading.Reached session session' ((framing option).parse (left ++ bytes)) := by
  obtain ⟨recvQueue, session', hReceive, -, hCompleted, hReached⟩ :=
    networkRecvCompleted_parses option pool h hBytes hRoom hPasses
  refine ⟨session', ?_, hReached⟩
  simp only [recvCompletion, hReceive, Option.bind_eq_bind, Option.bind_some, hCompleted]
  cases hStopped : ((framing option).parse (left ++ bytes)).stopped with
  | some reason => rfl
  | none =>
      have hRoom' := (hReached.waiting hStopped).enquable (Framer.next_rest_of_waiting hStopped)
      simp only [recvPost_of_enquable hRoom']

/-- Any admissible cut of a stream, handled completion by completion, parses
the stream. -/
theorem run_parses (h : session.Holding left) (hWaiting : (framing option).next left = .wait)
    {passes : Nat} (hPasses : netSessionRecvQueueSize < passes) {cut : List (List UInt8)}
    (hFits : Fits (recvCompletion option pool passes)
      (fun session => session.recvQueue.getEnquableSize) session cut) :
    ∃ session', run (recvCompletion option pool passes) session cut =
        some (session', ((framing option).parse (left ++ cut.flatten)).stopped) ∧
      reading.Reached session session' ((framing option).parse (left ++ cut.flatten)) :=
  run_eq_parse (F := framing option) (R := reading)
    (fun h hBytes hRoom => recvCompletion_parses option pool h hBytes hRoom hPasses) h hWaiting hFits

end Passes

end NfNetwork.Net
