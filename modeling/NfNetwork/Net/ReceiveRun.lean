import NfNetwork.Net.ReceiveFraming

/-! Whole receiving runs of a NET session: what a peer's frames come out as, that
the cut of the stream into completions does not matter, and which streams crash
the server. -/
namespace NfNetwork.Net

open Machinery Buffer

/-- The receive queue a session object carries from one client to the next. -/
structure SessionQueue where
  ring : RingBuffer
  contents : List UInt8
  represents : ring.Represents contents
  capacity : ring.maxCapacity = netSessionRecvQueueSize

/-- The queue of a session object that was never used. -/
def SessionQueue.new : SessionQueue where
  ring := .init netSessionRecvQueueSize
  contents := []
  represents := RingBuffer.init_represents _
  capacity := rfl

section Run

variable (option : ServerComponentOption) (pool : Nat → netLayout.Memory) (passes : Nat)
  (queue : SessionQueue)

/-- Receive a stream, cut into completions, in a session that `Init` prepared. -/
def receiveRun (cut : List (List UInt8)) : Option (RecvSession × Option RecvStop) :=
  run (recvCompletion option pool passes) (.init queue.ring) cut

/-- Every completion is non-empty and no larger than the free space it finds. -/
def Admissible (cut : List (List UInt8)) : Prop :=
  Fits (recvCompletion option pool passes) (fun session => session.recvQueue.getEnquableSize)
    (.init queue.ring) cut

theorem init_holding : (RecvSession.init queue.ring).Holding [] :=
  ⟨RingBuffer.clearBuffer_represents queue.represents, queue.capacity, rfl⟩

variable {option pool passes queue}

/-- A stream that fits the empty queue may arrive at once. -/
theorem admissible_singleton {bytes : List UInt8} (hBytes : bytes ≠ [])
    (hLength : bytes.length ≤ netSessionRecvQueueSize) :
    Admissible option pool passes queue [bytes] := by
  have hUsed := (init_holding queue).queue.used
  have hCapacity := (init_holding queue).capacity
  have hRoom : (RecvSession.init queue.ring).recvQueue.getEnquableSize =
      netSessionRecvQueueSize := by
    rw [RingBuffer.getEnquableSize, hUsed, hCapacity]
    rfl
  exact ⟨hBytes, hLength.trans_eq hRoom.symm, fun _ _ => trivial⟩

/-- A stream that fits the empty queue may be cut anywhere. -/
theorem admissible_of_length (hPasses : netSessionRecvQueueSize < passes) {cut : List (List UInt8)}
    (hSome : ∀ bytes ∈ cut, bytes ≠ []) (hLength : cut.flatten.length ≤ netSessionRecvQueueSize) :
    Admissible option pool passes queue cut :=
  fits_of_length (F := framing option) (R := reading)
    (fun h hBytes hRoom => recvCompletion_parses option pool h hBytes hRoom hPasses)
    (fun h => by rw [RingBuffer.getEnquableSize, h.queue.used, h.capacity])
    (init_holding queue) hSome (by rwa [List.length_nil, Nat.zero_add])

/-- Every stream can be received: a waiting session always has room for one
more byte. -/
theorem admissible_bytewise (hPasses : netSessionRecvQueueSize < passes) (stream : List UInt8) :
    Admissible option pool passes queue (stream.map fun byte => [byte]) := by
  have hFits {session : RecvSession} {left : List UInt8} (hHolding : session.Holding left)
      (hWaiting : (framing option).next left = .wait) :
      Fits (recvCompletion option pool passes)
        (fun session => session.recvQueue.getEnquableSize) session
        (stream.map fun byte => [byte]) := by
    induction stream generalizing session left with
    | nil => trivial
    | cons byte stream ih =>
        have hRoom : [byte].length ≤ session.recvQueue.getEnquableSize := by
          have hLt := length_lt_of_wait hWaiting
          rw [RingBuffer.getEnquableSize, hHolding.queue.used, hHolding.capacity]
          exact Nat.sub_pos_of_lt hLt
        refine ⟨List.cons_ne_nil _ _, hRoom, fun next hNext => ?_⟩
        obtain ⟨session', hSome, hReached⟩ :=
          recvCompletion_parses option pool hHolding (List.cons_ne_nil byte []) hRoom hPasses
        rw [hSome] at hNext
        have hStopped : ((framing option).parse (left ++ [byte])).stopped = none := by
          simpa using congrArg (Option.map Prod.snd) hNext
        have hSame : session' = next := by simpa using congrArg (Option.map Prod.fst) hNext
        subst hSame
        exact ih (hReached.waiting hStopped) (Framer.next_rest_of_waiting hStopped)
  exact hFits (init_holding queue) rfl

/-- A run is the greedy parse of its stream, and the session is closed exactly
when the parse ends in `CancelationIO`. -/
theorem receiveRun_eq_parse (hPasses : netSessionRecvQueueSize < passes)
    {cut : List (List UInt8)} (hCut : Admissible option pool passes queue cut) :
    ∃ session, receiveRun option pool passes queue cut =
        some (session, ((framing option).parse cut.flatten).stopped) ∧
      session.bodies = ((framing option).parse cut.flatten).outs ∧
      session.isCloseSocket =
        decide (((framing option).parse cut.flatten).stopped = some .cancelationIo) ∧
      (((framing option).parse cut.flatten).stopped = none →
        session.Holding ((framing option).parse cut.flatten).rest) := by
  obtain ⟨session, hRun, hReached⟩ := run_parses (init_holding queue) rfl hPasses hCut
  rw [List.nil_append] at hRun hReached
  refine ⟨session, hRun, hReached.outputs, ?_, hReached.waiting⟩
  cases hStopped : ((framing option).parse cut.flatten).stopped with
  | none => exact (hReached.waiting hStopped).opened
  | some reason =>
      rw [hReached.ended hStopped]
      simp

end Run

/-- Two admissible cuts of one stream give the same packets and the same final
outcome, those of the reference parser, and handling every completion ends. -/
theorem receiveRun_chunking (option : ServerComponentOption)
    (pool₁ pool₂ : Nat → netLayout.Memory) (queue₁ queue₂ : SessionQueue) {passes : Nat}
    (hPasses : netSessionRecvQueueSize < passes) {stream : List UInt8}
    {cut₁ cut₂ : List (List UInt8)} (hStream₁ : cut₁.flatten = stream)
    (hStream₂ : cut₂.flatten = stream) (hCut₁ : Admissible option pool₁ passes queue₁ cut₁)
    (hCut₂ : Admissible option pool₂ passes queue₂ cut₂) :
    ∃ session₁ session₂,
      receiveRun option pool₁ passes queue₁ cut₁ =
        some (session₁, ((framing option).parse stream).stopped) ∧
      receiveRun option pool₂ passes queue₂ cut₂ =
        some (session₂, ((framing option).parse stream).stopped) ∧
      session₁.bodies = ((framing option).parse stream).outs ∧
      session₂.bodies = ((framing option).parse stream).outs ∧
      session₁.isCloseSocket =
        decide (((framing option).parse stream).stopped = some .cancelationIo) ∧
      session₂.isCloseSocket = session₁.isCloseSocket := by
  obtain ⟨session₁, hRun₁, hBodies₁, hClosed₁, -⟩ := receiveRun_eq_parse hPasses hCut₁
  obtain ⟨session₂, hRun₂, hBodies₂, hClosed₂, -⟩ := receiveRun_eq_parse hPasses hCut₂
  rw [hStream₁] at hRun₁ hBodies₁ hClosed₁
  rw [hStream₂] at hRun₂ hBodies₂ hClosed₂
  exact ⟨session₁, session₂, hRun₁, hRun₂, hBodies₁, hBodies₂, hClosed₁,
    hClosed₂.trans hClosed₁.symm⟩

/-- A rejected code is found however the first header is cut. -/
theorem receiveRun_chunking_two_cuts :
    ∃ session₁ session₂,
      receiveRun {} (fun _ => ⟨List.replicate 4101 0, List.length_replicate⟩) 8193 .new [[9, 0, 0, 0, 0, 0]] =
        some (session₁, ((framing {}).parse [9, 0, 0, 0, 0, 0]).stopped) ∧
      receiveRun {} (fun _ => ⟨List.replicate 4101 7, List.length_replicate⟩) 8193 .new
          [[9], [0], [0], [0], [0], [0]] =
        some (session₂, ((framing {}).parse [9, 0, 0, 0, 0, 0]).stopped) ∧
      session₁.bodies = ((framing {}).parse [9, 0, 0, 0, 0, 0]).outs ∧
      session₂.bodies = ((framing {}).parse [9, 0, 0, 0, 0, 0]).outs ∧
      session₁.isCloseSocket =
        decide (((framing {}).parse [9, 0, 0, 0, 0, 0]).stopped = some .cancelationIo) ∧
      session₂.isCloseSocket = session₁.isCloseSocket :=
  receiveRun_chunking {} _ _ .new .new (by decide) rfl rfl
    (admissible_singleton (by decide) (by decide))
    (admissible_bytewise (by decide) [9, 0, 0, 0, 0, 0])

section RoundTrip

/-- A packet that a sender allocates, fills and encodes. -/
structure Outgoing where
  memory : netLayout.Memory
  puts : List Packet.Put
  rand : Nat

/-- The body bytes the sender put. -/
def Outgoing.bytes (o : Outgoing) : List UInt8 := o.puts.flatMap Packet.Put.bytes

/-- The bytes the sender hands to `WSASend` for it. -/
def Outgoing.image (option : ServerComponentOption) (o : Outgoing) : Option (List UInt8) := do
  let packet ← (Packet.initial o.memory).fill o.puts
  let (_, packet) ← packet.encodeOnce option.packetCode option.packetEncodeKey o.rand
  some packet.wireBytes

variable {option : ServerComponentOption}

/-- A body that fits is sent as its frame. -/
theorem Outgoing.image_eq {o : Outgoing} (h : o.bytes.length ≤ netLayout.room) :
    o.image option = some (Packet.frame option.packetCode option.packetEncodeKey
      (UInt8.ofNat (o.rand % 255)) o.bytes) := by
  obtain ⟨filled, tail, hFill, hHolds, hEncoded⟩ :=
    (Packet.initial_holds o.memory).fill
      (by rw [List.length_nil, Nat.zero_add]; exact h)
  obtain ⟨encoded, hEncode, hWire⟩ := hHolds.encodeOnce rfl hEncoded option.packetCode
    option.packetEncodeKey o.rand
  rw [Outgoing.image, hFill]
  simp only [Option.bind_eq_bind, Option.bind_some, hEncode, hWire]
  rfl

/-- The parser takes a sender's frame off the stream and gives its body back. -/
theorem next_frame (randKey : UInt8) {body : List UInt8}
    (hLength : body.length ≤ min option.maxPacketBodyLength netLayout.room) :
    (framing option).next
        (Packet.frame option.packetCode option.packetEncodeKey randKey body) =
      .emit body (netLayout.headerSize + body.length) := by
  have hMax : body.length ≤ option.maxPacketBodyLength := Nat.le_trans hLength (Nat.min_le_left ..)
  have hRoom : body.length ≤ netLayout.room := Nat.le_trans hLength (Nat.min_le_right ..)
  have hCapacity : body.length < netLayout.bodyCapacity :=
    Nat.lt_of_le_of_lt hRoom (by decide)
  generalize hFrame : Packet.frame option.packetCode option.packetEncodeKey randKey body = frame
  have hSize : frame.length = netLayout.headerSize + body.length := by
    rw [← hFrame]
    exact Packet.frame_length ..
  have hCode : (NetHeader.ofBytes frame).code = option.packetCode := by rw [← hFrame]; rfl
  have hRandKey : (NetHeader.ofBytes frame).randKey = randKey := by rw [← hFrame]; rfl
  have hBody : (NetHeader.ofBytes frame).length = body.length := by
    rw [← hFrame, Packet.frame, List.append_assoc]
    exact readUInt16_scalarBytes (Nat.lt_trans hCapacity (by decide)) [option.packetCode] _
  have hFrameSize : (rule option).frameSize frame = frame.length := by
    rw [hSize, ← hBody]
    rfl
  have hComplete : (rule option).CompleteFrame frame := {
    header := by
      rw [hSize]
      exact Nat.le_add_right _ _
    accepted := by
      refine reject_eq_none.mpr ?_
      change ¬RejectsHeader option (.ofBytes frame)
      rw [RejectsHeader, hCode, hBody]
      rintro (hCode | hLong | hLong)
      · exact hCode rfl
      · exact absurd hMax (Nat.not_le.mpr hLong)
      · exact absurd hCapacity (Nat.not_lt.mpr hLong)
    whole := Nat.le_of_eq hFrameSize }
  have hJudge : (rule option).judge ((rule option).read frame)
      (frame.take ((rule option).frameSize frame)) = .ok body := by
    refine judgeFrame_eq_ok.mpr ⟨?_, ?_⟩
    · exact hBody.trans_le hRoom
    · change packetDecode option.packetEncodeKey (NetHeader.ofBytes frame).randKey _ = _
      rw [hFrameSize, List.take_length, hRandKey, ← hFrame]
      exact packetDecode_packetEncode ..
  exact (HeaderRule.Stage.delivered hComplete hJudge).next_eq.trans (by rw [hFrameSize, hSize])

/-- A stream of senders' frames parses to their bodies and nothing is left. -/
theorem parse_frames {sent : List Outgoing}
    (hLength : ∀ o ∈ sent, o.bytes.length ≤ min option.maxPacketBodyLength netLayout.room) :
    (framing option).parse (sent.flatMap fun o => Packet.frame option.packetCode
        option.packetEncodeKey (UInt8.ofNat (o.rand % 255)) o.bytes) =
      ⟨sent.map Outgoing.bytes, none, []⟩ := by
  induction sent with
  | nil => exact Framer.parse_of_wait rfl
  | cons o sent ih =>
      have hNext : (framing option).next (Packet.frame option.packetCode option.packetEncodeKey
          (UInt8.ofNat (o.rand % 255)) o.bytes) = _ :=
        next_frame _ (hLength o List.mem_cons_self)
      have hRest := ih fun o' ho' => hLength o' (List.mem_cons_of_mem _ ho')
      have hSize : netLayout.headerSize + o.bytes.length = (Packet.frame option.packetCode
          option.packetEncodeKey (UInt8.ofNat (o.rand % 255)) o.bytes).length :=
        (Packet.frame_length ..).symm
      rw [List.flatMap_cons, Framer.parse_of_emit ((framing option).emit_append _ hNext), hSize,
        List.drop_left, hRest]
      rfl

/-- Whatever packets are sent and however their images are cut, the receiver
sees every body exactly once, in order, and stays open with an empty queue. -/
theorem receiveRun_roundTrip (option : ServerComponentOption) (pool : Nat → netLayout.Memory)
    (queue : SessionQueue) {passes : Nat} (hPasses : netSessionRecvQueueSize < passes)
    (sent : List Outgoing)
    (hLength : ∀ o ∈ sent, o.bytes.length ≤ min option.maxPacketBodyLength netLayout.room) :
    ∃ images, sent.mapM (Outgoing.image option) = some images ∧
      ∀ cut, cut.flatten = images.flatten → Admissible option pool passes queue cut →
        ∃ session, receiveRun option pool passes queue cut = some (session, none) ∧
          session.bodies = sent.map Outgoing.bytes ∧ session.isCloseSocket = false ∧
          session.recvQueue.isEmpty = true := by
  have hImages : sent.mapM (Outgoing.image option) = some (sent.map fun o => Packet.frame
      option.packetCode option.packetEncodeKey (UInt8.ofNat (o.rand % 255)) o.bytes) := by
    induction sent with
    | nil => rfl
    | cons o sent ih =>
        have hRoom := Nat.le_trans (hLength o List.mem_cons_self) (Nat.min_le_right ..)
        have hRest := ih fun o' ho' => hLength o' (List.mem_cons_of_mem _ ho')
        simp only [List.mapM_cons, Outgoing.image_eq hRoom, hRest, List.map_cons]
        rfl
  refine ⟨_, hImages, fun cut hStream hCut => ?_⟩
  have hParse := parse_frames hLength
  obtain ⟨session, hRun, hBodies, hClosed, hHolding⟩ := receiveRun_eq_parse hPasses hCut
  rw [hStream, List.flatten_eq_flatMap, List.flatMap_map] at hRun hBodies hClosed hHolding
  simp only [id_eq, hParse] at hRun hBodies hClosed hHolding
  have hUsed := (hHolding trivial).queue.used
  exact ⟨session, hRun, hBodies, hClosed, by rw [RingBuffer.isEmpty, hUsed]; rfl⟩

/-- Two packets, one of them filled in two steps. -/
theorem receiveRun_roundTrip_two_packets :
    ∃ images, [(⟨⟨List.replicate 4101 3, List.length_replicate⟩, [.body [1, 2, 3], .scalar 4 7], 300⟩ : Outgoing),
        ⟨⟨List.replicate 4101 0, List.length_replicate⟩, [], 5⟩].mapM (Outgoing.image {}) = some images ∧
      ∀ cut, cut.flatten = images.flatten →
        Admissible {} (fun _ => ⟨List.replicate 4101 0, List.length_replicate⟩) 8193 .new cut →
        ∃ session, receiveRun {} (fun _ => ⟨List.replicate 4101 0, List.length_replicate⟩) 8193 .new cut =
            some (session, none) ∧
          session.bodies = [[1, 2, 3, 7, 0, 0, 0], []] ∧ session.isCloseSocket = false ∧
          session.recvQueue.isEmpty = true :=
  receiveRun_roundTrip {} _ .new (by decide) _ (by decide)

end RoundTrip

end NfNetwork.Net
