import NfNetwork.Lan.ReceiveFraming

/-! Which streams make the LAN receiver leave a packet or shorten one. Two bytes
of `mBuffer` lie past `mBodyEnd`, so lengths just above the room are shortened,
and lengths above the capacity are written outside. -/
namespace NfNetwork.Lan

open Machinery Buffer

/-- The receive queue a session object carries from one client to the next. -/
structure SessionQueue where
  ring : RingBuffer
  contents : List UInt8
  represents : ring.Represents contents
  capacity : ring.maxCapacity = lanSessionRecvQueueSize

/-- The queue of a session object that was never used. -/
def SessionQueue.new : SessionQueue where
  ring := .init lanSessionRecvQueueSize
  contents := []
  represents := RingBuffer.init_represents _
  capacity := rfl

/-- Receive a stream, cut into completions, in a session that starts afresh. -/
def receiveRun (core : LanCore) (pool : Nat → lanLayout.Memory) (passes : Nat)
    (queue : SessionQueue) (cut : List (List UInt8)) : Option (RecvSession × Option RecvStop) :=
  run (recvCompletion core pool passes) (.init queue.ring) cut

/-- Every completion is non-empty and no larger than the free space it finds. -/
def Admissible (core : LanCore) (pool : Nat → lanLayout.Memory) (passes : Nat)
    (queue : SessionQueue) (cut : List (List UInt8)) : Prop :=
  Fits (recvCompletion core pool passes) (fun session => session.recvQueue.getEnquableSize)
    (.init queue.ring) cut

/-- A run that ends, copied every body inside its packet, and delivered every
packet with the body size that its header announced. -/
def WriteSafe (result : Option (RecvSession × Option RecvStop)) : Prop :=
  ∃ session stopped, result = some (session, stopped) ∧ stopped ≠ some .outOfBounds ∧
    ∀ r ∈ session.received, r.2.getBodySize = r.1

section Streams

variable (core : LanCore)

/-- The stream begins with a complete frame whose header passes the check. -/
structure CompleteFrame (bytes : List UInt8) : Prop where
  header : lanLayout.headerSize ≤ bytes.length
  accepted : readUInt16 bytes 0 ≤ core.serverComponentOption.maxPacketBodyLength
  whole : lanLayout.headerSize + readUInt16 bytes 0 ≤ bytes.length

/-- After frames that fit a packet only, the stream has a complete accepted
frame that does not. -/
inductive ReachesOverlong : List UInt8 → Prop where
  | here {bytes : List UInt8} (hFrame : CompleteFrame core bytes)
      (hOver : lanLayout.room < readUInt16 bytes 0) : ReachesOverlong bytes
  | later {bytes : List UInt8} (hFrame : CompleteFrame core bytes)
      (hRoom : readUInt16 bytes 0 ≤ lanLayout.room)
      (hRest : ReachesOverlong (bytes.drop (lanLayout.headerSize + readUInt16 bytes 0))) :
      ReachesOverlong bytes

variable {core} {bytes : List UInt8}

theorem reject_eq_none {length : Nat} : (rule core).reject length = none ↔
    length ≤ core.serverComponentOption.maxPacketBodyLength := by
  simp only [rule, ite_eq_right_iff, reduceCtorEq, imp_false, Nat.not_lt]

theorem completeFrame_iff : (rule core).CompleteFrame bytes ↔ CompleteFrame core bytes :=
  ⟨fun h => ⟨h.header, reject_eq_none.mp h.accepted, h.whole⟩,
    fun h => ⟨h.header, reject_eq_none.mpr h.accepted, h.whole⟩⟩

/-- A parse in which something went wrong: a copy left its packet, or a packet
was delivered with another size than announced. -/
def Spoiled (result : Parsed Delivery RecvStop) : Prop :=
  result.stopped = some .outOfBounds ∨ ∃ d ∈ result.outs, d.bodySize ≠ d.length

/-- The body of a delivered frame is as long as announced up to the room. -/
theorem next_emit {d : Delivery} {consumed : Nat}
    (h : (rule core).toFramer.next bytes = .emit d consumed) :
    CompleteFrame core bytes ∧ consumed = lanLayout.headerSize + readUInt16 bytes 0 ∧
      d.length = readUInt16 bytes 0 ∧ d.bodySize = min lanLayout.room (readUInt16 bytes 0) := by
  cases HeaderRule.stage_of_next h with
  | delivered hFrame hOut =>
      simp only [rule, judgeFrame] at hOut
      split_ifs at hOut
      cases hOut
      exact ⟨completeFrame_iff.mp hFrame, rfl, rfl, rfl⟩

/-- A delivered frame fits its packet's memory. -/
theorem next_emit_inside {d : Delivery} {consumed : Nat}
    (h : (rule core).toFramer.next bytes = .emit d consumed) :
    readUInt16 bytes 0 ≤ lanLayout.bodyCapacity := by
  cases HeaderRule.stage_of_next h with
  | delivered hFrame hOut =>
      simp only [rule, judgeFrame] at hOut
      split_ifs at hOut with hOutside
      exact Nat.le_of_not_lt hOutside

theorem CompleteFrame.append (h : CompleteFrame core bytes) (more : List UInt8) :
    CompleteFrame core (bytes ++ more) :=
  completeFrame_iff.mp ((completeFrame_iff.mpr h).append more)

theorem next_stop_outOfBounds (h : (rule core).toFramer.next bytes = .stop .outOfBounds) :
    CompleteFrame core bytes ∧ lanLayout.bodyCapacity < readUInt16 bytes 0 := by
  cases HeaderRule.stage_of_next h with
  | rejected hHeader hRejects =>
      simp only [rule] at hRejects
      split_ifs at hRejects
      cases hRejects
  | failed hFrame hError =>
      simp only [rule, judgeFrame] at hError
      split_ifs at hError with hOver
      exact ⟨completeFrame_iff.mp hFrame, hOver⟩

/-- An accepted complete frame is copied out of bounds or delivered. -/
theorem CompleteFrame.next (h : CompleteFrame core bytes) :
    (rule core).toFramer.next bytes = .stop .outOfBounds ∨
      ∃ d, (rule core).toFramer.next bytes =
        .emit d (lanLayout.headerSize + readUInt16 bytes 0) := by
  have hFrame := completeFrame_iff.mpr h
  cases hJudge : (rule core).judge ((rule core).read bytes)
      (bytes.take ((rule core).frameSize bytes)) with
  | error reason => cases reason with
    | outOfBounds => exact .inl (HeaderRule.Stage.failed hFrame hJudge).next_eq
    | cancelationIo =>
        simp only [rule, judgeFrame] at hJudge
        split_ifs at hJudge
        cases hJudge
  | ok d => exact .inr ⟨d, (HeaderRule.Stage.delivered hFrame hJudge).next_eq⟩

theorem ReachesOverlong.completeFrame (h : ReachesOverlong core bytes) :
    CompleteFrame core bytes := by
  cases h with
  | here hFrame => exact hFrame
  | later hFrame => exact hFrame

/-- A parse is spoiled exactly when its stream reaches an overlong frame. -/
theorem parse_spoiled_iff (stream : List UInt8) :
    Spoiled ((rule core).toFramer.parse stream) ↔ ReachesOverlong core stream := by
  induction stream using (rule core).toFramer.parse_induction with
  | wait bytes hNext =>
      rw [Framer.parse_of_wait hNext]
      constructor
      · rintro (hNone | ⟨d, hNil, -⟩)
        · cases hNone
        · cases hNil
      · intro hReaches
        rcases hReaches.completeFrame.next with hStop | ⟨d, hEmit⟩
        · cases hNext.symm.trans hStop
        · cases hNext.symm.trans hEmit
  | stop bytes reason hNext =>
      rw [Framer.parse_of_stop hNext]
      constructor
      · rintro (hOut | ⟨d, hNil, -⟩)
        · cases hOut
          obtain ⟨hFrame, hOver⟩ := next_stop_outOfBounds hNext
          exact .here hFrame (Nat.lt_of_le_of_lt (Nat.sub_le _ _) hOver)
        · cases hNil
      · intro hReaches
        rcases hReaches.completeFrame.next with hStop | ⟨d, hEmit⟩
        · cases hNext.symm.trans hStop
          exact .inl rfl
        · cases hNext.symm.trans hEmit
  | emit bytes d consumed hNext ih =>
      obtain ⟨hFrame, rfl, hLength, hSize⟩ := next_emit hNext
      rw [Framer.parse_of_emit hNext]
      rcases Nat.lt_or_ge lanLayout.room (readUInt16 bytes 0) with hOver | hRoom
      · refine ⟨fun _ => .here hFrame hOver, fun _ => .inr ⟨d, List.mem_cons_self, ?_⟩⟩
        rw [hSize, hLength, Nat.min_eq_left hOver.le]
        exact hOver.ne
      · have hExact : d.bodySize = d.length := by rw [hSize, hLength, Nat.min_eq_right hRoom]
        constructor
        · rintro (hOut | ⟨d', hMem, hWrong⟩)
          · exact .later hFrame hRoom (ih.mp (.inl hOut))
          · rcases List.mem_cons.mp hMem with rfl | hLater
            · exact absurd hExact hWrong
            · exact .later hFrame hRoom (ih.mp (.inr ⟨d', hLater, hWrong⟩))
        · intro hReaches
          cases hReaches with
          | here _ hOver => exact absurd hRoom (Nat.not_le.mpr hOver)
          | later _ _ hRest =>
              rcases ih.mpr hRest with hOut | ⟨d', hLater, hWrong⟩
              · exact .inl hOut
              · exact .inr ⟨d', List.mem_cons_of_mem _ hLater, hWrong⟩

/-- An overlong length is within the option, so a small option excludes it. -/
theorem ReachesOverlong.room_lt (h : ReachesOverlong core bytes) :
    lanLayout.room < core.serverComponentOption.maxPacketBodyLength := by
  induction h with
  | here hFrame hOver => exact Nat.lt_of_lt_of_le hOver hFrame.accepted
  | later hFrame hRoom hRest ih => exact ih

/-- A header announcing one byte more than the room, and that many bytes. -/
def overlongStream : List UInt8 := [0xCF, 0x07] ++ List.replicate 1999 0

theorem overlongStream_reaches
    (h : lanLayout.room < core.serverComponentOption.maxPacketBodyLength) :
    ReachesOverlong core overlongStream := by
  have hHeader : readUInt16 overlongStream 0 = 1999 := rfl
  have hLength : overlongStream.length = 2001 := by
    rw [overlongStream, List.length_append, List.length_replicate]
    rfl
  refine .here ⟨?_, ?_, ?_⟩ ?_
  · rw [hLength]
    decide
  · rw [hHeader]
    exact h
  · rw [hHeader, hLength]
    decide
  · rw [hHeader]
    decide

end Streams

section Runs

variable {core : LanCore} {pool : Nat → lanLayout.Memory} {passes : Nat} {queue : SessionQueue}

theorem init_holding (queue : SessionQueue) : (RecvSession.init queue.ring).Holding [] :=
  ⟨RingBuffer.clearBuffer_represents queue.represents, queue.capacity⟩

theorem admissible_singleton {bytes : List UInt8} (hBytes : bytes ≠ [])
    (hLength : bytes.length ≤ lanSessionRecvQueueSize) :
    Admissible core pool passes queue [bytes] := by
  have hRoom : (RecvSession.init queue.ring).recvQueue.getEnquableSize =
      lanSessionRecvQueueSize := by
    rw [RingBuffer.getEnquableSize, (init_holding queue).queue.used, (init_holding queue).capacity]
    rfl
  exact ⟨hBytes, hLength.trans_eq hRoom.symm, fun _ _ => trivial⟩

/-- A stream that fits the empty queue may be cut anywhere. -/
theorem admissible_of_length (hPasses : lanSessionRecvQueueSize < passes) {cut : List (List UInt8)}
    (hSome : ∀ bytes ∈ cut, bytes ≠ []) (hLength : cut.flatten.length ≤ lanSessionRecvQueueSize) :
    Admissible core pool passes queue cut :=
  fits_of_length (F := (rule core).toFramer) (R := reading)
    (fun h hBytes hRoom => recvCompletion_parses core pool h hBytes hRoom hPasses)
    (fun h => by rw [RingBuffer.getEnquableSize, h.queue.used, h.capacity])
    (init_holding queue) hSome (by rwa [List.length_nil, Nat.zero_add])

theorem overlongStream_admissible : Admissible core pool passes queue [overlongStream] :=
  admissible_singleton (List.cons_ne_nil _ _) (by
    rw [overlongStream, List.length_append, List.length_replicate]
    decide)

theorem writeSafe_iff_of_admissible (hPasses : lanSessionRecvQueueSize < passes)
    {cut : List (List UInt8)} (hCut : Admissible core pool passes queue cut) :
    WriteSafe (receiveRun core pool passes queue cut) ↔ ¬ReachesOverlong core cut.flatten := by
  obtain ⟨session, hRun, hReached⟩ :=
    run_eq_parse (F := (rule core).toFramer) (R := reading)
      (fun h hBytes hRoom => recvCompletion_parses core pool h hBytes hRoom hPasses)
      (init_holding queue) rfl hCut
  have hOutputs := hReached.outputs
  rw [List.nil_append] at hRun hOutputs
  have hDeliveries : session.received.map (fun r => (⟨r.1, r.2.getBodySize, r.2.body⟩ : Delivery)) =
      ((rule core).toFramer.parse cut.flatten).outs := hOutputs
  rw [← parse_spoiled_iff, receiveRun, hRun, Spoiled, not_or, ← hDeliveries]
  constructor
  · rintro ⟨session', stopped, hSome, hStopped, hSizes⟩
    cases hSome
    refine ⟨hStopped, ?_⟩
    rintro ⟨d, hMem, hWrong⟩
    obtain ⟨r, hReceived, rfl⟩ := List.mem_map.mp hMem
    exact hWrong (hSizes r hReceived)
  · rintro ⟨hStopped, hSizes⟩
    refine ⟨session, _, rfl, hStopped, fun r hReceived => ?_⟩
    exact Decidable.of_not_not fun hWrong =>
      hSizes ⟨_, List.mem_map_of_mem hReceived, hWrong⟩

/-- A run is spoiled exactly when its stream reaches an overlong frame, and no
stream does exactly when the configured bound is within the room. `ValidateOption`
accepts any bound. -/
theorem receiveRun_writeSafe_iff (core : LanCore) (pool : Nat → lanLayout.Memory)
    (queue : SessionQueue) {passes : Nat} (hPasses : lanSessionRecvQueueSize < passes) :
    (∀ cut, Admissible core pool passes queue cut →
      (WriteSafe (receiveRun core pool passes queue cut) ↔
        ¬ReachesOverlong core cut.flatten)) ∧
    ((∀ cut, Admissible core pool passes queue cut →
      WriteSafe (receiveRun core pool passes queue cut)) ↔
        core.serverComponentOption.maxPacketBodyLength ≤ lanLayout.room) := by
  refine ⟨fun cut hCut => writeSafe_iff_of_admissible hPasses hCut, fun hSafe => ?_, ?_⟩
  · refine Nat.le_of_not_lt fun hOver => ?_
    have hSpoiled := hSafe _ overlongStream_admissible
    refine (writeSafe_iff_of_admissible hPasses overlongStream_admissible).mp hSpoiled ?_
    rw [List.flatten_singleton]
    exact overlongStream_reaches hOver
  · intro hBound cut hCut
    exact (writeSafe_iff_of_admissible hPasses hCut).mpr fun hReaches =>
      absurd hReaches.room_lt (Nat.not_lt.mpr hBound)

/-- A bound within the room is safe for a concrete stream. -/
theorem receiveRun_writeSafe_bounded :
    WriteSafe (receiveRun ⟨{ maxPacketBodyLength := 1998 }, rfl⟩
      (fun _ => ⟨List.replicate 2002 0, List.length_replicate⟩) 4087 .new [[1, 0, 9, 5]]) :=
  (receiveRun_writeSafe_iff ⟨{ maxPacketBodyLength := 1998 }, rfl⟩ _ .new (by decide)).2.mpr
    (by decide) _ (admissible_singleton (by decide) (by decide))

/-- With the default option, which `ValidateOption` accepts, a frame of body
length 1999 is delivered with another body size. -/
theorem receiveRun_spoils :
    Admissible ⟨{}, rfl⟩ (fun _ => ⟨List.replicate 2002 0, List.length_replicate⟩) 4087 .new
        [overlongStream] ∧
      ¬WriteSafe (receiveRun ⟨{}, rfl⟩
        (fun _ => ⟨List.replicate 2002 0, List.length_replicate⟩) 4087 .new [overlongStream]) := by
  refine ⟨overlongStream_admissible, fun hSafe => ?_⟩
  refine (writeSafe_iff_of_admissible (by decide) overlongStream_admissible).mp hSafe ?_
  rw [List.flatten_singleton]
  exact overlongStream_reaches (by decide)

end Runs

end NfNetwork.Lan
