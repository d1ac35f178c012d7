import NfNetwork.Net.ReceiveRun

/-! The room in the receive queue. Between two completions it holds part of one frame, and
the largest frame that passes the header checks is smaller than the queue, so neither of the
two branches that close a session for lack of room is ever taken. -/
namespace NfNetwork.Net

open Machinery Buffer

/-- The bytes that `RecvPost` offers to the kernel, over its one or two buffers. -/
def RecvSession.offered (session : RecvSession) : Nat :=
  (session.recvQueue.recvBuffers.map RingBuffer.WsaBuf.len).sum

/-- Part of a header, or a header that passed both checks with part of its body. -/
inductive PartialFrame (option : ServerComponentOption) (bytes : List UInt8) : Prop where
  | header (h : bytes.length < netLayout.headerSize) : PartialFrame option bytes
  | body (hHeader : netLayout.headerSize ≤ bytes.length)
      (hAccepted : ¬RejectsHeader option (.ofBytes bytes))
      (hLength : (NetHeader.ofBytes bytes).length < netLayout.bodyCapacity)
      (h : bytes.length < netLayout.headerSize + (NetHeader.ofBytes bytes).length) :
      PartialFrame option bytes

section Space

variable {option : ServerComponentOption} {bytes left : List UInt8} {session : RecvSession}

/-- An accepted length is below the body capacity. -/
theorem length_lt_of_accepted {header : NetHeader} (h : ¬RejectsHeader option header) :
    header.length < netLayout.bodyCapacity :=
  Nat.lt_of_not_le fun hLe => h (.inr (.inr hLe))

/-- The parser waits on partial frames. -/
theorem partialFrame_of_wait (h : (framing option).next bytes = .wait) :
    PartialFrame option bytes := by
  cases HeaderRule.stage_of_next h with
  | short hShort => exact .header hShort
  | incomplete hHeader hAccepted hShort =>
      have hAccepted' := reject_eq_none.mp hAccepted
      exact .body hHeader hAccepted' (length_lt_of_accepted hAccepted') hShort

/-- The two buffers make up the free space. -/
theorem RecvSession.Holding.offered_eq (h : session.Holding left) :
    session.offered = session.recvQueue.getEnquableSize := by
  have hUsed := h.queue.used
  have hRead := h.queue.read_lt
  have hWrite := h.queue.write_lt
  have hFits := h.queue.fits
  have hEq := h.queue.write_eq
  have hCapacity : session.recvQueue.maxCapacity = 8192 := h.capacity
  have hDirect : session.recvQueue.getDirectEnqueueSize ≤ session.recvQueue.getEnquableSize := by
    unfold RingBuffer.getDirectEnqueueSize RingBuffer.getEnquableSize
    rw [hCapacity] at hRead hWrite hFits hEq ⊢
    rw [← hUsed] at hFits
    split_ifs <;> omega
  unfold RecvSession.offered RingBuffer.recvBuffers
  dsimp only
  split_ifs with hOne
  · simpa using hOne
  · simp only [List.map_cons, List.map_nil, List.sum_cons, List.sum_nil]
    omega

end Space

/-- What one completion finds and leaves: its bytes are moved whole, so the branch for lack
of space is not taken, and when `NetworkRecvCompleted` returns true the queue holds part of
one frame and is not full. -/
structure HasSpace (option : ServerComponentOption) (pool : Nat → netLayout.Memory)
    (passes : Nat) (session : RecvSession) (bytes : List UInt8) : Prop where
  room : 0 < session.recvQueue.getEnquableSize
  moved : ∃ recvQueue, session.recvQueue.receive bytes = some recvQueue ∧
    (recvQueue.moveWrite bytes.length).1 = bytes.length
  returns : ∀ recvQueue, session.recvQueue.receive bytes = some recvQueue →
    ∃ result, networkRecvCompleted option pool passes { session with recvQueue } bytes.length =
      some result ∧
    (result.2 = none → (∃ left, result.1.recvQueue.Represents left ∧ PartialFrame option left) ∧
      0 < result.1.recvQueue.getEnquableSize ∧ recvPost result.1 = result.1)

section Runs

variable {option : ServerComponentOption} {pool : Nat → netLayout.Memory} {passes : Nat}
  {session : RecvSession}

/-- An open session that waits on what its queue holds. -/
def Waiting (option : ServerComponentOption) (session : RecvSession) : Prop :=
  ∃ left, session.Holding left ∧ (framing option).next left = .wait

theorem Waiting.hasSpace (h : Waiting option session) {bytes : List UInt8} (hBytes : bytes ≠ [])
    (hOffered : bytes.length ≤ session.offered) (hPasses : netSessionRecvQueueSize < passes) :
    HasSpace option pool passes session bytes := by
  obtain ⟨left, hHolding, hWaiting⟩ := h
  rw [hHolding.offered_eq] at hOffered
  obtain ⟨recvQueue, session', hReceive, hMoved, hCompleted, hReached⟩ :=
    networkRecvCompleted_parses option pool hHolding hBytes hOffered hPasses
  refine ⟨hHolding.enquable hWaiting, ⟨recvQueue, hReceive, hMoved⟩, fun stored hStored => ?_⟩
  cases hReceive.symm.trans hStored
  refine ⟨_, hCompleted, fun hNone => ?_⟩
  have hRest := Framer.next_rest_of_waiting hNone
  have hHolds := hReached.waiting hNone
  have hRoom := hHolds.enquable hRest
  exact ⟨⟨_, hHolds.queue, partialFrame_of_wait hRest⟩, hRoom, recvPost_of_enquable hRoom⟩

/-- A completion after which the session waits again. -/
theorem Waiting.recvCompletion (h : Waiting option session) {session' : RecvSession}
    {bytes : List UInt8} (hBytes : bytes ≠ []) (hOffered : bytes.length ≤ session.offered)
    (hPasses : netSessionRecvQueueSize < passes)
    (hNext : recvCompletion option pool passes session bytes = some (session', none)) :
    Waiting option session' := by
  obtain ⟨left, hHolding, -⟩ := h
  rw [hHolding.offered_eq] at hOffered
  obtain ⟨reached, hSome, hReached⟩ :=
    recvCompletion_parses option pool hHolding hBytes hOffered hPasses
  rw [hSome] at hNext
  have hNone : ((framing option).parse (left ++ bytes)).stopped = none := by
    simpa using congrArg (Option.map Prod.snd) hNext
  have hSame : reached = session' := by simpa using congrArg (Option.map Prod.fst) hNext
  subst hSame
  exact ⟨_, hReached.waiting hNone, Framer.next_rest_of_waiting hNone⟩

theorem waiting_init (queue : SessionQueue) : Waiting option (.init queue.ring) :=
  ⟨[], init_holding queue, rfl⟩

end Runs

/-- The receive queue never fills: the first receive finds room, and so does every one after
a completion, whatever the stream is and however it is cut. -/
theorem receiveRun_hasSpace (option : ServerComponentOption) (pool : Nat → netLayout.Memory)
    (queue : SessionQueue) {passes : Nat} (hPasses : netSessionRecvQueueSize < passes)
    {cut : List (List UInt8)}
    (hCut : Fits (recvCompletion option pool passes) RecvSession.offered (.init queue.ring) cut) :
    0 < (RecvSession.init queue.ring).recvQueue.getEnquableSize ∧
    ∀ before bytes after session, cut = before ++ bytes :: after →
      receiveRun option pool passes queue before = some (session, none) →
      HasSpace option pool passes session bytes := by
  refine ⟨(init_holding queue).enquable (show (framing option).next [] = .wait from rfl), ?_⟩
  rintro before bytes after session rfl hRun
  obtain ⟨hWaiting, hBytes, hOffered⟩ := hCut.at_completion (Waiting option)
    (fun h hBytes hOffered hNext => h.recvCompletion hBytes hOffered hPasses hNext)
    (waiting_init queue) hRun
  exact hWaiting.hasSpace hBytes hOffered hPasses

/-- A frame of four bytes but for its last one, in pieces that break the header and the body. -/
private def brokenFrame : List (List UInt8) := [[0, 4, 0], [7, 9, 1], [2, 3]]

/-- The session waits through a broken frame, and the completion with its last piece finds room. -/
theorem receiveRun_hasSpace_brokenFrame :
    ∃ pool session, receiveRun {} pool 8193 .new (brokenFrame.take 2) = some (session, none) ∧
      HasSpace {} pool 8193 session [2, 3] := by
  obtain ⟨pool⟩ : Nonempty (Nat → netLayout.Memory) :=
    ⟨fun _ => ⟨List.replicate 4101 0, List.length_replicate⟩⟩
  have hPasses : netSessionRecvQueueSize < 8193 := by decide
  have hCut : Fits (recvCompletion {} pool 8193) RecvSession.offered
      (.init SessionQueue.new.ring) brokenFrame :=
    fits_of_length (F := framing {}) (R := reading)
      (fun h hBytes hRoom => recvCompletion_parses {} pool h hBytes
        (hRoom.trans_eq h.offered_eq) hPasses)
      (fun h => by rw [h.offered_eq, RingBuffer.getEnquableSize, h.queue.used, h.capacity])
      (init_holding .new) (by decide) (by decide)
  have hAdmissible : Admissible {} pool 8193 .new (brokenFrame.take 2) :=
    admissible_of_length hPasses (by decide) (by decide)
  obtain ⟨session, hRun, -⟩ := receiveRun_eq_parse hPasses hAdmissible
  have hWaits : (framing {}).next (brokenFrame.take 2).flatten = .wait := rfl
  rw [(framing {}).parse_of_wait hWaits] at hRun
  exact ⟨pool, session, hRun,
    (receiveRun_hasSpace {} pool .new hPasses hCut).2 _ _ [] session rfl hRun⟩

end NfNetwork.Net
