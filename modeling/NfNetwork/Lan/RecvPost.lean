import NfNetwork.Lan.WriteSafe
import NfNetwork.Buffer.ZeroCopy

/-! The receives a LAN session posts. `RecvPost` follows a completion whose loop ended in
`break` and asserts that there is room; which streams leave none, and which options let such
a stream in. -/
namespace NfNetwork.Lan

open Machinery Buffer

/-- A session, and its receive queue as each `RecvPost` after a completion found it. -/
structure Receiver where
  session : RecvSession
  recvPosts : List RingBuffer

section Completion

variable (core : LanCore) (pool : Nat → lanLayout.Memory) (passes : Nat)

/-- `NetworkRecvCompleted` with the `RecvPost` at its end. -/
def Receiver.completion (receiver : Receiver) (bytes : List UInt8) :
    Option (Receiver × Option RecvStop) :=
  match recvCompletion core pool passes receiver.session bytes with
  | none => none
  | some (session, none) => some (⟨session, receiver.recvPosts ++ [session.recvQueue]⟩, none)
  | some (session, some reason) => some (⟨session, receiver.recvPosts⟩, some reason)

/-- Receive a stream, cut into completions, in a session that starts afresh. -/
def postRun (queue : SessionQueue) (cut : List (List UInt8)) : Option (Receiver × Option RecvStop) :=
  run (Receiver.completion core pool passes) ⟨.init queue.ring, []⟩ cut

variable {core pool passes}

/-- The posts do not change what is received. -/
theorem run_completion {session session' : RecvSession} {stopped : Option RecvStop}
    {cut : List (List UInt8)} (h : run (recvCompletion core pool passes) session cut =
      some (session', stopped)) (recvPosts : List RingBuffer) :
    ∃ recvPosts', run (Receiver.completion core pool passes) ⟨session, recvPosts⟩ cut =
        some (⟨session', recvPosts'⟩, stopped) ∧
      (stopped = none → recvPosts'.length = recvPosts.length + cut.length) := by
  induction cut generalizing session recvPosts with
  | nil =>
      cases h
      exact ⟨recvPosts, rfl, fun _ => rfl⟩
  | cons bytes later ih =>
      rw [run] at h
      split at h
      · cases h
      · rename_i next hNext
        obtain ⟨recvPosts', hRun, hLength⟩ := ih h (recvPosts ++ [next.recvQueue])
        refine ⟨recvPosts', ?_, fun hStopped => ?_⟩
        · rw [run, Receiver.completion, hNext]
          exact hRun
        · rw [hLength hStopped, List.length_append, List.length_singleton, List.length_cons]
          omega
      · rename_i next reason hNext
        cases h
        refine ⟨recvPosts, ?_, by simp⟩
        rw [run, Receiver.completion, hNext]

end Completion

/-- The run came to its end with every body copied inside its packet, and every `RecvPost` met its two
assertions. -/
def FindsRoom (result : Option (Receiver × Option RecvStop)) : Prop :=
  ∃ receiver stopped, result = some (receiver, stopped) ∧ stopped ≠ some .outOfBounds ∧
    ∀ recvQueue ∈ receiver.recvPosts, 0 < recvQueue.getEnquableSize ∧ 0 < recvQueue.getDirectEnqueueSize

section Streams

variable (core : LanCore)

/-- After frames that fit a packet's memory, the stream has an accepted header that announces
more than the receive queue can hold, and enough bytes to fill the queue. -/
inductive FillsQueue : List UInt8 → Prop where
  | here {bytes : List UInt8}
      (hAccepted : readUInt16 bytes 0 ≤ core.serverComponentOption.maxPacketBodyLength)
      (hOver : lanSessionRecvQueueSize < lanLayout.headerSize + readUInt16 bytes 0)
      (hBytes : lanSessionRecvQueueSize ≤ bytes.length) : FillsQueue bytes
  | later {bytes : List UInt8} (hFrame : CompleteFrame core bytes)
      (hInside : readUInt16 bytes 0 ≤ lanLayout.bodyCapacity)
      (hRest : FillsQueue (bytes.drop (lanLayout.headerSize + readUInt16 bytes 0))) :
      FillsQueue bytes

/-- After frames that fit a packet's memory, the stream has a complete accepted frame that does not:
its copy overwrites what is behind the packet, and nothing is promised of the run from there on. -/
inductive LeavesPacket : List UInt8 → Prop where
  | here {bytes : List UInt8} (hFrame : CompleteFrame core bytes)
      (hOutside : lanLayout.bodyCapacity < readUInt16 bytes 0) : LeavesPacket bytes
  | later {bytes : List UInt8} (hFrame : CompleteFrame core bytes)
      (hInside : readUInt16 bytes 0 ≤ lanLayout.bodyCapacity)
      (hRest : LeavesPacket (bytes.drop (lanLayout.headerSize + readUInt16 bytes 0))) :
      LeavesPacket bytes

variable {core} {bytes : List UInt8}

theorem LeavesPacket.completeFrame (h : LeavesPacket core bytes) : CompleteFrame core bytes := by
  cases h with
  | here hFrame => exact hFrame
  | later hFrame => exact hFrame

/-- What the bytes of a queue decide about a stream that begins with them. -/
theorem leavesPacket_append (more : List UInt8)
    (h : ((rule core).toFramer.parse bytes).stopped = some .outOfBounds ∨
      ((rule core).toFramer.parse bytes).stopped = none ∧
        LeavesPacket core (((rule core).toFramer.parse bytes).rest ++ more)) :
    LeavesPacket core (bytes ++ more) := by
  induction bytes using (rule core).toFramer.parse_induction with
  | wait bytes hNext =>
      rw [Framer.parse_of_wait hNext] at h
      exact (h.resolve_left nofun).2
  | stop bytes reason hNext =>
      rw [Framer.parse_of_stop hNext] at h
      obtain rfl := Option.some.inj (h.resolve_right fun hWaiting => nomatch hWaiting.1)
      obtain ⟨hFrame, hOutside⟩ := next_stop_outOfBounds hNext
      exact .here (hFrame.append more) (readUInt16_append more hFrame.header ▸ hOutside)
  | emit bytes d consumed hNext ih =>
      rw [Framer.parse_of_emit hNext] at h
      obtain ⟨hFrame, rfl, -, -⟩ := next_emit hNext
      have hSame := readUInt16_append more hFrame.header
      refine .later (hFrame.append more) (hSame ▸ next_emit_inside hNext) ?_
      rw [hSame, List.drop_append_of_le_length hFrame.whole]
      exact ih h

theorem FillsQueue.le_length (h : FillsQueue core bytes) :
    lanSessionRecvQueueSize ≤ bytes.length := by
  induction h with
  | here _ _ hBytes => exact hBytes
  | later _ _ _ ih =>
      rw [List.length_drop] at ih
      omega

/-- Such a header is within the option, so a small option excludes it. -/
theorem FillsQueue.size_lt (h : FillsQueue core bytes) :
    lanSessionRecvQueueSize <
      lanLayout.headerSize + core.serverComponentOption.maxPacketBodyLength := by
  induction h with
  | here hAccepted hOver _ => exact Nat.lt_of_lt_of_le hOver (Nat.add_le_add_left hAccepted _)
  | later _ _ _ ih => exact ih

/-- A full queue that waits holds the beginning of a frame it cannot hold. -/
theorem fillsQueue_of_full (hWaiting : (rule core).toFramer.next bytes = .wait)
    (hFull : bytes.length = lanSessionRecvQueueSize) : FillsQueue core bytes := by
  cases HeaderRule.stage_of_next hWaiting with
  | short hShort =>
      have hTiny : lanSessionRecvQueueSize < lanLayout.headerSize := hFull ▸ hShort
      exact absurd hTiny (by decide)
  | incomplete hHeader hAccepted hShort =>
      exact .here (reject_eq_none.mp hAccepted) (hFull ▸ hShort) hFull.ge

/-- What the bytes of a queue decide about a stream that begins with them. -/
theorem fillsQueue_append_iff (more : List UInt8) (hFits : bytes.length ≤ lanSessionRecvQueueSize) :
    FillsQueue core (bytes ++ more) ↔
      ((rule core).toFramer.parse bytes).stopped = none ∧
        FillsQueue core (((rule core).toFramer.parse bytes).rest ++ more) := by
  induction bytes using (rule core).toFramer.parse_induction with
  | wait bytes hNext => simp [Framer.parse_of_wait hNext]
  | stop bytes reason hNext =>
      rw [Framer.parse_of_stop hNext]
      refine ⟨fun hFills => ?_, fun h => nomatch h.1⟩
      cases HeaderRule.stage_of_next hNext with
      | rejected hHeader hRejects =>
          have hSame := readUInt16_append more hHeader
          have hNone : (rule core).reject (readUInt16 bytes 0) = none := by
            refine reject_eq_none.mpr ?_
            cases hFills with
            | here hAccepted _ _ => rwa [hSame] at hAccepted
            | later hFrame _ _ => exact hSame ▸ hFrame.accepted
          cases hNone.symm.trans hRejects
      | failed hFrame hError =>
          have hComplete := completeFrame_iff.mp hFrame
          have hSame := readUInt16_append more hComplete.header
          have hWhole := hComplete.whole
          simp only [rule, judgeFrame] at hError
          split_ifs at hError with hOutside
          cases hFills with
          | here _ hOver _ =>
              rw [hSame] at hOver
              omega
          | later _ hInside _ =>
              rw [hSame] at hInside
              exact absurd hOutside (Nat.not_lt.mpr hInside)
  | emit bytes d consumed hNext ih =>
      obtain ⟨hComplete, rfl, -, -⟩ := next_emit hNext
      have hSame := readUInt16_append more hComplete.header
      have hWhole := hComplete.whole
      have hRest := ih (by rw [List.length_drop]; omega)
      have hDrop : (bytes ++ more).drop (lanLayout.headerSize + readUInt16 bytes 0) =
          bytes.drop (lanLayout.headerSize + readUInt16 bytes 0) ++ more :=
        List.drop_append_of_le_length hWhole
      rw [Framer.parse_of_emit hNext, ← hRest, ← hDrop]
      constructor
      · intro hFills
        cases hFills with
        | here _ hOver _ =>
            rw [hSame] at hOver
            omega
        | later _ _ hLater => rwa [hSame] at hLater
      · intro hLater
        exact .later (hComplete.append more) (hSame ▸ next_emit_inside hNext) (hSame.symm ▸ hLater)

/-- The longest header that `uint16_t` and the queue leave room for, and bytes up to a full
queue. -/
def fillingStream : List UInt8 := [0xF5, 0x0F] ++ List.replicate 4084 0

theorem fillingStream_length : fillingStream.length = lanSessionRecvQueueSize := by
  rw [fillingStream, List.length_append, List.length_replicate]
  rfl

theorem fillingStream_fills
    (h : lanSessionRecvQueueSize <
      lanLayout.headerSize + core.serverComponentOption.maxPacketBodyLength) :
    FillsQueue core fillingStream := by
  have hHeader : readUInt16 fillingStream 0 = 4085 := rfl
  refine .here ?_ ?_ fillingStream_length.ge
  · rw [hHeader]
    change 4086 < 2 + _ at h
    omega
  · rw [hHeader]
    decide

/-- Its one frame is never complete. -/
theorem fillingStream_inside : ¬ LeavesPacket core fillingStream := by
  intro hLeaves
  have hWhole := hLeaves.completeFrame.whole
  have hHeader : readUInt16 fillingStream 0 = 4085 := rfl
  rw [hHeader, fillingStream_length] at hWhole
  exact absurd hWhole (by decide)

end Streams

section Runs

variable {core : LanCore} {pool : Nat → lanLayout.Memory} {passes : Nat}

theorem RecvSession.Holding.free_eq {session : RecvSession} {left : List UInt8}
    (h : session.Holding left) :
    session.recvQueue.getEnquableSize = lanSessionRecvQueueSize - left.length := by
  rw [RingBuffer.getEnquableSize, h.queue.used, h.capacity]

/-- From a waiting session with room, every later `RecvPost` finds room exactly when the bytes
to come do not fill the queue. -/
theorem run_findsRoom_iff (hPasses : lanSessionRecvQueueSize < passes) {session : RecvSession}
    {left : List UInt8} (hHolding : session.Holding left)
    (hWaiting : (rule core).toFramer.next left = .wait)
    (hLeft : left.length < lanSessionRecvQueueSize) {cut : List (List UInt8)}
    (hCut : Fits (recvCompletion core pool passes)
      (fun session => session.recvQueue.getEnquableSize) session cut)
    (hInside : ¬ LeavesPacket core (left ++ cut.flatten)) {recvPosts : List RingBuffer}
    (hPosts : ∀ recvQueue ∈ recvPosts,
      0 < recvQueue.getEnquableSize ∧ 0 < recvQueue.getDirectEnqueueSize) :
    FindsRoom (run (Receiver.completion core pool passes) ⟨session, recvPosts⟩ cut) ↔
      ¬FillsQueue core (left ++ cut.flatten) := by
  induction cut generalizing session left recvPosts with
  | nil =>
      rw [List.flatten_nil, List.append_nil]
      refine ⟨fun _ hFills => ?_, fun _ => ⟨_, _, rfl, nofun, hPosts⟩⟩
      exact absurd hFills.le_length (Nat.not_le.mpr hLeft)
  | cons bytes later ih =>
      obtain ⟨hSome, hRoom, hLater⟩ := hCut
      have hFits : (left ++ bytes).length ≤ lanSessionRecvQueueSize := by
        have hFree := hHolding.free_eq
        change bytes.length ≤ session.recvQueue.getEnquableSize at hRoom
        rw [List.length_append]
        omega
      obtain ⟨next, hNext, hReached⟩ := recvCompletion_parses core pool hHolding hSome hRoom hPasses
      rw [List.flatten_cons, ← List.append_assoc] at hInside
      rw [List.flatten_cons, ← List.append_assoc, fillsQueue_append_iff later.flatten hFits]
      cases hStopped : ((rule core).toFramer.parse (left ++ bytes)).stopped with
      | some reason =>
          rw [hStopped] at hNext
          refine ⟨fun _ h => (nomatch h.1), fun _ => ⟨⟨next, recvPosts⟩, some reason, ?_, ?_, hPosts⟩⟩
          · rw [run, Receiver.completion, hNext]
          · rintro ⟨⟩
            exact hInside (leavesPacket_append later.flatten (.inl hStopped))
      | none =>
          rw [hStopped] at hNext
          have hHolds : next.Holding ((rule core).toFramer.parse (left ++ bytes)).rest :=
            hReached.waiting hStopped
          have hRest := Framer.next_rest_of_waiting hStopped
          have hLaterInside := fun hLeaves => hInside (leavesPacket_append later.flatten (.inr ⟨hStopped, hLeaves⟩))
          generalize ((rule core).toFramer.parse (left ++ bytes)).rest = rest at hHolds hRest hLaterInside ⊢
          have hFree := hHolds.free_eq
          have hRun : run (Receiver.completion core pool passes) ⟨session, recvPosts⟩
              (bytes :: later) = run (Receiver.completion core pool passes)
                ⟨next, recvPosts ++ [next.recvQueue]⟩ later := by
            rw [run, Receiver.completion, hNext]
          rw [hRun, and_iff_right rfl]
          rcases Nat.lt_or_ge rest.length lanSessionRecvQueueSize with hLt | hFull
          · refine ih hHolds hRest hLt (hLater next hNext) hLaterInside ?_
            have hPos : 0 < next.recvQueue.getEnquableSize := by omega
            intro recvQueue hMem
            rcases List.mem_append.mp hMem with hOld | hNew
            · exact hPosts recvQueue hOld
            · rw [List.mem_singleton.mp hNew]
              exact ⟨hPos, hHolds.queue.direct_pos hPos⟩
          · -- The queue is full, so nothing else can arrive.
            have hSize : rest.length = lanSessionRecvQueueSize := by
              have hUsed := hHolds.queue.fits
              rw [hHolds.capacity] at hUsed
              omega
            have hEnd : later = [] := by
              cases later with
              | nil => rfl
              | cons more others =>
                  obtain ⟨hMore, hNone, -⟩ := hLater next hNext
                  change more.length ≤ next.recvQueue.getEnquableSize at hNone
                  have := List.length_pos_of_ne_nil hMore
                  omega
            subst hEnd
            rw [List.flatten_nil, List.append_nil]
            refine ⟨?_, fun hNot => absurd (fillsQueue_of_full hRest hSize) hNot⟩
            rintro ⟨receiver, stopped, hEq, -, hAll⟩
            cases hEq
            have hLast := (hAll next.recvQueue (by simp)).1
            omega

theorem postRun_findsRoom_of_admissible (hPasses : lanSessionRecvQueueSize < passes)
    {queue : SessionQueue} {cut : List (List UInt8)} (hCut : Admissible core pool passes queue cut)
    (hInside : ¬ LeavesPacket core cut.flatten) :
    FindsRoom (postRun core pool passes queue cut) ↔ ¬FillsQueue core cut.flatten :=
  run_findsRoom_iff hPasses (init_holding queue) rfl (by decide) hCut hInside
    fun _ hNone => absurd hNone List.not_mem_nil

theorem fillingStream_admissible {queue : SessionQueue} :
    Admissible core pool passes queue [fillingStream] :=
  admissible_singleton (List.cons_ne_nil _ _) fillingStream_length.le

theorem fillingStream_findsNoRoom (hPasses : lanSessionRecvQueueSize < passes) {queue : SessionQueue}
    (h : lanSessionRecvQueueSize <
      lanLayout.headerSize + core.serverComponentOption.maxPacketBodyLength) :
    ¬FindsRoom (postRun core pool passes queue [fillingStream]) := by
  have hInside : ¬LeavesPacket core [fillingStream].flatten := by
    rw [List.flatten_singleton]
    exact fillingStream_inside
  rw [postRun_findsRoom_of_admissible hPasses fillingStream_admissible hInside, not_not,
    List.flatten_singleton]
  exact fillingStream_fills h

/-- As long as no body leaves its packet: a run posts a receive without room exactly when its stream
fills the queue with part of a frame, and no stream does exactly when the longest accepted frame fits
the queue. `ValidateOption` accepts any bound. -/
theorem postRun_findsRoom_iff (core : LanCore) (pool : Nat → lanLayout.Memory)
    (queue : SessionQueue) {passes : Nat} (hPasses : lanSessionRecvQueueSize < passes) :
    (∀ cut, Admissible core pool passes queue cut → ¬LeavesPacket core cut.flatten →
      (FindsRoom (postRun core pool passes queue cut) ↔ ¬FillsQueue core cut.flatten)) ∧
    ((∀ cut, Admissible core pool passes queue cut → ¬LeavesPacket core cut.flatten →
      FindsRoom (postRun core pool passes queue cut)) ↔
        lanLayout.headerSize + core.serverComponentOption.maxPacketBodyLength ≤
          lanSessionRecvQueueSize) := by
  refine ⟨fun cut hCut hInside => postRun_findsRoom_of_admissible hPasses hCut hInside,
    fun hRoom => ?_, ?_⟩
  · refine Nat.le_of_not_lt fun hOver => fillingStream_findsNoRoom hPasses hOver
      (hRoom _ fillingStream_admissible ?_)
    rw [List.flatten_singleton]
    exact fillingStream_inside
  · intro hBound cut hCut hInside
    exact (postRun_findsRoom_of_admissible hPasses hCut hInside).mpr fun hFills =>
      absurd hFills.size_lt (Nat.not_lt.mpr hBound)

/-- Two frames of two bytes and half of a third header, in pieces that break both frames. -/
private def brokenFrames : List (List UInt8) := [[2], [0, 7], [8, 2, 0, 9], [4, 1]]

/-- Under the bound that `UINT16_MAX` sets, each of the four receives that follow finds room. -/
theorem postRun_findsRoom_brokenFrames :
    FindsRoom (postRun ⟨{ maxPacketBodyLength := 65535 }, rfl⟩
      (fun _ => ⟨List.replicate 2002 0, List.length_replicate⟩) 4087 .new brokenFrames) := by
  have hLength : brokenFrames.flatten.length = 9 := rfl
  refine ((postRun_findsRoom_iff ⟨{ maxPacketBodyLength := 65535 }, rfl⟩ _ .new (by decide)).1 _
    (admissible_of_length (by decide) (by decide) (by rw [hLength]; decide)) fun hLeaves => ?_).mpr
      fun hFills => ?_
  · cases hLeaves with
    | here _ hOutside => exact absurd hOutside (by decide)
    | later _ _ hLeaves => cases hLeaves with
      | here _ hOutside => exact absurd hOutside (by decide)
      | later _ _ hLeaves => exact absurd hLeaves.completeFrame.header (by decide)
  · have hTooShort := hFills.le_length
    rw [hLength] at hTooShort
    exact absurd hTooShort (by decide)

/-- With the bound that `UINT16_MAX` sets, which `ValidateOption` accepts, a header of 4085 and
4084 body bytes leave no room for the receive that is posted next. -/
theorem postRun_findsNoRoom :
    Admissible ⟨{ maxPacketBodyLength := 65535 }, rfl⟩
        (fun _ => ⟨List.replicate 2002 0, List.length_replicate⟩) 4087 .new [fillingStream] ∧
      ¬LeavesPacket ⟨{ maxPacketBodyLength := 65535 }, rfl⟩ fillingStream ∧
      ¬FindsRoom (postRun ⟨{ maxPacketBodyLength := 65535 }, rfl⟩
        (fun _ => ⟨List.replicate 2002 0, List.length_replicate⟩) 4087 .new [fillingStream]) :=
  ⟨fillingStream_admissible, fillingStream_inside, fillingStream_findsNoRoom (by decide) (by decide)⟩

end Runs

end NfNetwork.Lan
