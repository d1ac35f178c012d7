import NfNetwork.Net.ReceiveRun

/-! Which streams drive the NET receiver into a crash branch. The length check
compares with `GetBodyCapacity()`, but `mBodyEnd` leaves a header's worth less
room than that, so the lengths in between pass the check and crash. -/
namespace NfNetwork.Net

open Machinery Buffer

/-- A run that ends neither in a crash branch nor outside a buffer. Then every
`Dequeue` into a packet stayed inside it and returned the whole frame, and every
`MoveBodyWritePos` returned the header's length. -/
def CrashFree (result : Option (RecvSession × Option RecvStop)) : Prop :=
  ∃ session stopped, result = some (session, stopped) ∧
    ∀ reason, stopped = some reason → reason.isCrash = false

section Streams

variable (option : ServerComponentOption)

/-- The stream begins with a complete frame whose header passes both checks. -/
structure CompleteFrame (bytes : List UInt8) : Prop where
  header : netLayout.headerSize ≤ bytes.length
  accepted : ¬RejectsHeader option (.ofBytes bytes)
  whole : netLayout.headerSize + (NetHeader.ofBytes bytes).length ≤ bytes.length

/-- The stream begins with a frame that fits a packet and has the right checksum. -/
structure WellFormedFrame (bytes : List UInt8) : Prop extends CompleteFrame option bytes where
  room : (NetHeader.ofBytes bytes).length ≤ netLayout.room
  checkSum : ∃ body, packetDecode option.packetEncodeKey (NetHeader.ofBytes bytes).randKey
    ((bytes.take (netLayout.headerSize + (NetHeader.ofBytes bytes).length)).drop 4) =
      calculateCheckSum body :: body

/-- After well-formed frames only, the stream has a complete frame whose length
passes the checks and exceeds the room of a packet. -/
inductive ReachesOverlong : List UInt8 → Prop where
  | here {bytes : List UInt8} (hFrame : CompleteFrame option bytes)
      (hOver : netLayout.room < (NetHeader.ofBytes bytes).length) : ReachesOverlong bytes
  | later {bytes : List UInt8} (hFrame : WellFormedFrame option bytes)
      (hRest : ReachesOverlong
        (bytes.drop (netLayout.headerSize + (NetHeader.ofBytes bytes).length))) :
      ReachesOverlong bytes

variable {option} {bytes : List UInt8}

theorem completeFrame_iff : (rule option).CompleteFrame bytes ↔ CompleteFrame option bytes :=
  ⟨fun h => ⟨h.header, reject_eq_none.mp h.accepted, h.whole⟩,
    fun h => ⟨h.header, reject_eq_none.mpr h.accepted, h.whole⟩⟩

/-- An overlong frame is judged to crash. -/
theorem CompleteFrame.overlong (h : CompleteFrame option bytes)
    (hOver : netLayout.room < (NetHeader.ofBytes bytes).length) :
    (framing option).next bytes = .stop .failedMoveBodyWritePos :=
  (HeaderRule.Stage.failed (completeFrame_iff.mpr h) (if_pos hOver)).next_eq

/-- A frame is delivered exactly when it is well formed. -/
theorem next_emit_iff {body : List UInt8} {consumed : Nat} :
    (framing option).next bytes = .emit body consumed ↔
      CompleteFrame option bytes ∧
      consumed = netLayout.headerSize + (NetHeader.ofBytes bytes).length ∧
      judgeFrame option (.ofBytes bytes) (bytes.take consumed) = .ok body := by
  constructor
  · intro h
    cases HeaderRule.stage_of_next h with
    | delivered hFrame hOut => exact ⟨completeFrame_iff.mp hFrame, rfl, hOut⟩
  · rintro ⟨hFrame, rfl, hOut⟩
    exact (HeaderRule.Stage.delivered (completeFrame_iff.mpr hFrame) hOut).next_eq

theorem WellFormedFrame.next_emit (h : WellFormedFrame option bytes) :
    ∃ body, (framing option).next bytes =
      .emit body (netLayout.headerSize + (NetHeader.ofBytes bytes).length) := by
  obtain ⟨body, hDecode⟩ := h.checkSum
  exact ⟨body, next_emit_iff.mpr ⟨h.toCompleteFrame, rfl, judgeFrame_eq_ok.mpr ⟨h.room, hDecode⟩⟩⟩

theorem wellFormedFrame_of_emit {body : List UInt8} {consumed : Nat}
    (h : (framing option).next bytes = .emit body consumed) :
    WellFormedFrame option bytes ∧
      consumed = netLayout.headerSize + (NetHeader.ofBytes bytes).length := by
  obtain ⟨hFrame, rfl, hOut⟩ := next_emit_iff.mp h
  obtain ⟨hRoom, hDecode⟩ := judgeFrame_eq_ok.mp hOut
  exact ⟨⟨hFrame, hRoom, body, hDecode⟩, rfl⟩

/-- The one crash verdict is about an overlong frame. -/
theorem overlong_of_stop {reason : RecvStop} (h : (framing option).next bytes = .stop reason)
    (hCrash : reason.isCrash = true) :
    CompleteFrame option bytes ∧ netLayout.room < (NetHeader.ofBytes bytes).length := by
  cases HeaderRule.stage_of_next h with
  | rejected hHeader hRejects =>
      obtain ⟨-, rfl⟩ := reject_eq_some hRejects
      cases hCrash
  | failed hFrame hError =>
      exact ⟨completeFrame_iff.mp hFrame, (judgeFrame_eq_error hError).mp hCrash⟩

/-- The parser stops at a crash branch exactly on the streams that reach an
overlong frame. -/
theorem parse_crash_iff (stream : List UInt8) :
    (∃ reason, ((framing option).parse stream).stopped = some reason ∧ reason.isCrash = true) ↔
      ReachesOverlong option stream := by
  induction stream using (framing option).parse_induction with
  | wait bytes hNext =>
      rw [Framer.parse_of_wait hNext]
      constructor
      · rintro ⟨reason, hNone, -⟩
        cases hNone
      · rintro (⟨hFrame, hOver⟩ | ⟨hFrame, -⟩)
        · cases hNext.symm.trans (hFrame.overlong hOver)
        · obtain ⟨body, hEmit⟩ := hFrame.next_emit
          cases hNext.symm.trans hEmit
  | stop bytes reason hNext =>
      rw [Framer.parse_of_stop hNext]
      constructor
      · rintro ⟨reason', hSome, hCrash⟩
        cases hSome
        obtain ⟨hFrame, hOver⟩ := overlong_of_stop hNext hCrash
        exact .here hFrame hOver
      · rintro (⟨hFrame, hOver⟩ | ⟨hFrame, -⟩)
        · cases hNext.symm.trans (hFrame.overlong hOver)
          exact ⟨_, rfl, rfl⟩
        · obtain ⟨body, hEmit⟩ := hFrame.next_emit
          cases hNext.symm.trans hEmit
  | emit bytes body consumed hNext ih =>
      obtain ⟨hFrame, rfl⟩ := wellFormedFrame_of_emit hNext
      rw [Framer.parse_of_emit hNext]
      refine ih.trans ⟨.later hFrame, ?_⟩
      rintro (⟨-, hOver⟩ | ⟨-, hRest⟩)
      · exact absurd hFrame.room (Nat.not_le.mpr hOver)
      · exact hRest

/-- An overlong length is within the option, so a small option excludes it. -/
theorem ReachesOverlong.room_lt (h : ReachesOverlong option bytes) :
    netLayout.room < option.maxPacketBodyLength := by
  induction h with
  | here hFrame hOver =>
      exact Nat.lt_of_lt_of_le hOver
        (Nat.le_of_not_lt fun hLong => hFrame.accepted (.inr (.inl hLong)))
  | later hFrame hRest ih => exact ih

/-- A header announcing one byte more than the room, and that many bytes. -/
def overlongStream (option : ServerComponentOption) : List UInt8 :=
  [option.packetCode, 0xFC, 0x0F, 0, 0] ++ List.replicate 4092 0

theorem overlongStream_length : (overlongStream option).length = 4097 := by
  rw [overlongStream, List.length_append, List.length_replicate]
  rfl

theorem overlongStream_reaches (h : netLayout.room < option.maxPacketBodyLength) :
    ReachesOverlong option (overlongStream option) := by
  have hHeader : (NetHeader.ofBytes (overlongStream option)).length = 4092 := rfl
  refine .here ⟨?_, ?_, ?_⟩ ?_
  · rw [overlongStream_length]
    decide
  · rw [RejectsHeader, hHeader]
    rintro (hCode | hLong | hLong)
    · exact hCode rfl
    · exact absurd h (Nat.not_lt.mpr (Nat.le_of_lt_succ hLong))
    · exact absurd hLong (by decide)
  · rw [overlongStream_length, hHeader]
    decide
  · rw [hHeader]
    decide

end Streams

section Runs

variable {option : ServerComponentOption} {pool : Nat → netLayout.Memory} {passes : Nat}
  {queue : SessionQueue}

theorem overlongStream_admissible : Admissible option pool passes queue [overlongStream option] :=
  admissible_singleton (List.cons_ne_nil _ _) (by rw [overlongStream_length]; decide)

theorem crashFree_iff_of_admissible (hPasses : netSessionRecvQueueSize < passes)
    {cut : List (List UInt8)} (hCut : Admissible option pool passes queue cut) :
    CrashFree (receiveRun option pool passes queue cut) ↔
      ¬ReachesOverlong option cut.flatten := by
  obtain ⟨session, hRun, -⟩ := receiveRun_eq_parse hPasses hCut
  rw [hRun, ← parse_crash_iff]
  constructor
  · rintro ⟨session', stopped, hSome, hSafe⟩ ⟨reason, hReason, hCrash⟩
    cases hSome
    rw [hSafe reason hReason] at hCrash
    cases hCrash
  · intro hNone
    refine ⟨session, _, rfl, fun reason hReason => ?_⟩
    exact Bool.eq_false_iff.mpr fun hCrash => hNone ⟨reason, hReason, hCrash⟩

/-- A run crashes exactly when its stream reaches an overlong frame, and no
stream does exactly when the configured bound is within the room. -/
theorem receiveRun_crashFree_iff (option : ServerComponentOption)
    (pool : Nat → netLayout.Memory) (queue : SessionQueue) {passes : Nat}
    (hPasses : netSessionRecvQueueSize < passes) :
    (∀ cut, Admissible option pool passes queue cut →
      (CrashFree (receiveRun option pool passes queue cut) ↔
        ¬ReachesOverlong option cut.flatten)) ∧
    ((∀ cut, Admissible option pool passes queue cut →
      CrashFree (receiveRun option pool passes queue cut)) ↔
        option.maxPacketBodyLength ≤ netLayout.room) := by
  refine ⟨fun cut hCut => crashFree_iff_of_admissible hPasses hCut, fun hFree => ?_, ?_⟩
  · refine Nat.le_of_not_lt fun hOver => ?_
    have hCrash := hFree _ overlongStream_admissible
    refine (crashFree_iff_of_admissible hPasses overlongStream_admissible).mp hCrash ?_
    rw [List.flatten_singleton]
    exact overlongStream_reaches hOver
  · intro hBound cut hCut
    exact (crashFree_iff_of_admissible hPasses hCut).mpr fun hReaches =>
      absurd hReaches.room_lt (Nat.not_lt.mpr hBound)

/-- The default option is safe for a concrete stream, here cut bytewise. -/
theorem receiveRun_crashFree_default :
    CrashFree (receiveRun {} (fun _ => ⟨List.replicate 4101 0, List.length_replicate⟩) 8193 .new
      [[0], [0xFC], [0x0F], [0], [0], [1]]) :=
  (receiveRun_crashFree_iff {} _ .new (by decide)).2.mpr (by decide) _
    (admissible_bytewise (by decide) [0, 0xFC, 0x0F, 0, 0, 1])

/-- With the bound that both sample servers configure, one frame of body length
4092 crashes the server. -/
theorem receiveRun_crashes :
    Admissible { maxPacketBodyLength := 65535 }
        (fun _ => ⟨List.replicate 4101 0, List.length_replicate⟩) 8193 .new
        [overlongStream { maxPacketBodyLength := 65535 }] ∧
      ¬CrashFree (receiveRun { maxPacketBodyLength := 65535 }
        (fun _ => ⟨List.replicate 4101 0, List.length_replicate⟩) 8193 .new
        [overlongStream { maxPacketBodyLength := 65535 }]) := by
  refine ⟨overlongStream_admissible, fun hFree => ?_⟩
  refine (crashFree_iff_of_admissible (by decide) overlongStream_admissible).mp hFree ?_
  rw [List.flatten_singleton]
  exact overlongStream_reaches (by decide)

end Runs

end NfNetwork.Net
