import NfNetwork.Lan.RecvPost

/-! What a LAN sender's packets come out as at the receiver, however their bytes are cut into
completions. -/
namespace NfNetwork.Lan

open Machinery Buffer

section Sender

/-- The header that `SendPacket` sets: the body size cast to `uint16_t`. -/
def sendHeader (sendPacket : Packet lanLayout) : List UInt8 :=
  Packet.scalarBytes 2 (sendPacket.getBodySize % 2 ^ 16)

/-- The `GetPacketSize()` bytes that go to `WSASend` after `SendPacket` set the header. -/
def sendImage (sendPacket : Packet lanLayout) : Option (List UInt8) := do
  let sendPacket ← sendPacket.setHeader (sendHeader sendPacket)
  some sendPacket.wireBytes

variable {core : LanCore}

/-- A packet that was filled inside its body area, with a body that the receiver accepts. -/
structure Sendable (core : LanCore) (sendPacket : Packet lanLayout) : Prop where
  written : sendPacket.Written
  room : sendPacket.getBodySize ≤ lanLayout.room
  accepted : sendPacket.getBodySize ≤ core.serverComponentOption.maxPacketBodyLength

/-- The frame of a body. -/
def frame (body : List UInt8) : List UInt8 := Packet.scalarBytes 2 body.length ++ body

theorem frame_length (body : List UInt8) : (frame body).length = lanLayout.headerSize + body.length := by
  rw [frame, List.length_append, Packet.scalarBytes_length]
  rfl

theorem Sendable.body_length {sendPacket : Packet lanLayout} (h : Sendable core sendPacket) :
    sendPacket.body.length = sendPacket.getBodySize := by
  obtain ⟨header, body, tail, hHolds⟩ := h.written
  rw [hHolds.body_eq, hHolds.getBodySize]

theorem Sendable.image_eq {sendPacket : Packet lanLayout} (h : Sendable core sendPacket) :
    sendImage sendPacket = some (frame sendPacket.body) := by
  obtain ⟨header, body, tail, hHolds⟩ := h.written
  have hRoom : body.length ≤ 1998 := hHolds.getBodySize ▸ h.room
  obtain ⟨p', hSet, hHolds'⟩ :=
    hHolds.setHeader (Packet.scalarBytes_length 2 (sendPacket.getBodySize % 2 ^ 16))
  rw [sendImage, sendHeader, hSet, Option.bind_eq_bind, Option.bind_some, hHolds'.wireBytes_eq, hHolds.body_eq,
    frame, hHolds.getBodySize, Nat.mod_eq_of_lt (by omega)]

/-- The parser takes a sender's frame off the stream and gives its body back. -/
theorem Sendable.next_frame {sendPacket : Packet lanLayout} (h : Sendable core sendPacket) :
    (rule core).toFramer.next (frame sendPacket.body) =
      .emit ⟨sendPacket.getBodySize, sendPacket.getBodySize, sendPacket.body⟩
        (lanLayout.headerSize + sendPacket.getBodySize) := by
  have hLength := h.body_length
  have hRoom := h.room
  have hAccepted := h.accepted
  generalize sendPacket.getBodySize = size at hLength hRoom hAccepted ⊢
  generalize sendPacket.body = body at hLength ⊢
  have hCapacity : size ≤ lanLayout.bodyCapacity := Nat.le_trans hRoom (by decide)
  have hSmall : size < 65536 := Nat.lt_of_le_of_lt hRoom (by decide)
  have hRead : (rule core).read (frame body) = size := by
    rw [frame, hLength]
    exact readUInt16_scalarBytes hSmall [] body
  have hSize : (frame body).length = lanLayout.headerSize + size := by
    rw [frame_length, hLength]
  have hFrameSize : (rule core).frameSize (frame body) = (frame body).length := by
    rw [hSize, HeaderRule.frameSize, hRead]
    rfl
  have hComplete : (rule core).CompleteFrame (frame body) := {
    header := by
      rw [hSize]
      exact Nat.le_add_right _ _
    accepted := by
      rw [hRead]
      exact reject_eq_none.mpr hAccepted
    whole := hFrameSize.le }
  have hJudge : (rule core).judge ((rule core).read (frame body))
      ((frame body).take ((rule core).frameSize (frame body))) = .ok ⟨size, size, body⟩ := by
    rw [hRead, hFrameSize, List.take_length]
    change judgeFrame size (frame body) = _
    rw [judgeFrame, if_neg (Nat.not_lt.mpr hCapacity), Nat.min_eq_right hRoom, frame,
      List.drop_left' (show (Packet.scalarBytes 2 body.length).length = lanLayout.headerSize from
        Packet.scalarBytes_length ..), List.take_of_length_le (hLength.trans_le hRoom)]
  exact (HeaderRule.Stage.delivered hComplete hJudge).next_eq.trans (by rw [hFrameSize, hSize])

/-- A stream of senders' frames parses to their bodies and nothing is left. -/
theorem parse_frames {sent : List (Packet lanLayout)} (h : ∀ p ∈ sent, Sendable core p) :
    (rule core).toFramer.parse (sent.flatMap fun p => frame p.body) =
      ⟨sent.map fun p => ⟨p.getBodySize, p.getBodySize, p.body⟩, none, []⟩ := by
  induction sent with
  | nil => exact Framer.parse_of_wait rfl
  | cons p sent ih =>
      have hFirst := h p List.mem_cons_self
      have hRest := ih fun q hq => h q (List.mem_cons_of_mem _ hq)
      have hSize : lanLayout.headerSize + p.getBodySize = (frame p.body).length := by
        rw [frame_length, hFirst.body_length]
      rw [List.flatMap_cons, Framer.parse_of_emit ((rule core).toFramer.emit_append _ hFirst.next_frame),
        hSize, List.drop_left, hRest]
      rfl

end Sender

section Receiver

variable {core : LanCore} {pool : Nat → lanLayout.Memory} {passes : Nat}

/-- The pass leaves the socket as it was, unless it ends in `CancelationIO` or outside a
buffer. -/
def KeepsSocket (isCloseSocket : Bool) : Pass RecvSession (RecvSession × Option RecvStop) → Prop
  | .again session => session.isCloseSocket = isCloseSocket
  | .leave (session, stopped) => stopped = none → session.isCloseSocket = isCloseSocket

theorem completePacket_keepsSocket (session : RecvSession) (length : Nat) :
    KeepsSocket session.isCloseSocket (completePacket pool session length) := by
  unfold completePacket
  simp only
  split
  · exact fun hNone => nomatch hNone
  · split
    · exact fun hNone => nomatch hNone
    · rfl

theorem recvPass_keepsSocket (session : RecvSession) :
    KeepsSocket session.isCloseSocket (recvPass core pool session) := by
  unfold recvPass
  simp only
  split
  · exact fun _ => rfl
  split
  · exact fun hNone => nomatch hNone
  split
  · exact fun hNone => nomatch hNone
  split
  · exact fun _ => rfl
  · exact completePacket_keepsSocket _ _

theorem recvCompletion_isCloseSocket {session session' : RecvSession} {bytes : List UInt8}
    (h : recvCompletion core pool passes session bytes = some (session', none)) :
    session'.isCloseSocket = session.isCloseSocket := by
  obtain ⟨recvQueue, -, hCompleted⟩ := Option.bind_eq_some_iff.mp h
  unfold networkRecvCompleted at hCompleted
  simp only at hCompleted
  split at hCompleted
  · cases hCompleted
  · refine loop_keeps (fun s => s.isCloseSocket = session.isCloseSocket)
      (fun result => result.2 = none → result.1.isCloseSocket = session.isCloseSocket)
      (fun {s s'} hInv hAgain => ?_) (fun {s result} hInv hLeave => ?_) rfl hCompleted rfl
    · have hKeeps : KeepsSocket s.isCloseSocket (recvPass core pool s) := recvPass_keepsSocket s
      rw [hAgain] at hKeeps
      exact Eq.trans hKeeps hInv
    · have hKeeps : KeepsSocket s.isCloseSocket (recvPass core pool s) := recvPass_keepsSocket s
      rw [hLeave] at hKeeps
      exact fun hNone => (hKeeps hNone).trans hInv

theorem run_isCloseSocket {session session' : RecvSession} {cut : List (List UInt8)}
    (h : run (recvCompletion core pool passes) session cut = some (session', none)) :
    session'.isCloseSocket = session.isCloseSocket := by
  induction cut generalizing session with
  | nil =>
      cases h
      rfl
  | cons bytes later ih =>
      rw [run] at h
      split at h
      · cases h
      · rename_i next hNext
        exact (ih h).trans (recvCompletion_isCloseSocket hNext)
      · cases h

end Receiver

/-- Whatever packets are sent and however their images are cut, every packet is received once,
in order and with its body; the session stays open, a receive follows every completion, and
nothing is left in the queue. -/
theorem postRun_roundTrip (core : LanCore) (pool : Nat → lanLayout.Memory) (queue : SessionQueue)
    {passes : Nat} (hPasses : lanSessionRecvQueueSize < passes) (sent : List (Packet lanLayout))
    (hSent : ∀ p ∈ sent, Sendable core p) :
    ∃ images, sent.mapM sendImage = some images ∧
      ∀ cut, cut.flatten = images.flatten → Admissible core pool passes queue cut →
        ∃ receiver, postRun core pool passes queue cut = some (receiver, none) ∧
          receiver.session.deliveries =
            sent.map (fun p => ⟨p.getBodySize, p.getBodySize, p.body⟩) ∧
          receiver.session.isCloseSocket = false ∧ receiver.recvPosts.length = cut.length ∧
          receiver.session.recvQueue.isEmpty = true := by
  have hImages : sent.mapM sendImage = some (sent.map fun p => frame p.body) := by
    induction sent with
    | nil => rfl
    | cons p sent ih =>
        have hRest := ih fun q hq => hSent q (List.mem_cons_of_mem _ hq)
        simp only [List.mapM_cons, (hSent p List.mem_cons_self).image_eq, hRest, List.map_cons]
        rfl
  refine ⟨_, hImages, fun cut hStream hCut => ?_⟩
  obtain ⟨session, hRun, hReached⟩ :=
    run_eq_parse (F := (rule core).toFramer) (R := reading)
      (fun h hBytes hRoom => recvCompletion_parses core pool h hBytes hRoom hPasses)
      (init_holding queue) rfl hCut
  have hOutputs := hReached.outputs
  have hWaiting := hReached.waiting
  rw [List.nil_append, hStream, List.flatten_eq_flatMap, List.flatMap_map] at hRun hOutputs hWaiting
  simp only [id_eq, parse_frames hSent] at hRun hOutputs hWaiting
  obtain ⟨recvPosts, hPostRun, hLength⟩ := run_completion hRun []
  have hHolding : session.Holding [] := hWaiting trivial
  refine ⟨⟨session, recvPosts⟩, hPostRun, hOutputs, run_isCloseSocket hRun, ?_, ?_⟩
  · rw [hLength rfl, List.length_nil, Nat.zero_add]
  · rw [RingBuffer.isEmpty, hHolding.queue.used]
    rfl

/-- A packet with three body bytes under a stale header, and an empty one. -/
theorem postRun_roundTrip_two_packets :
    ∃ images, [(⟨[9, 9] ++ [1, 2, 3] ++ List.replicate 1997 0, 2, 5, 2, 2000, 1, 0⟩ : Packet lanLayout),
        ⟨[9, 9] ++ [] ++ List.replicate 2000 7, 2, 2, 2, 2000, 1, 0⟩].mapM sendImage = some images ∧
      ∀ cut, cut.flatten = images.flatten →
        Admissible ⟨{}, rfl⟩ (fun _ => ⟨List.replicate 2002 0, List.length_replicate⟩) 4087 .new cut →
        ∃ receiver, postRun ⟨{}, rfl⟩ (fun _ => ⟨List.replicate 2002 0, List.length_replicate⟩) 4087
            .new cut = some (receiver, none) ∧
          receiver.session.deliveries.map Delivery.body = [[1, 2, 3], []] ∧
          receiver.session.isCloseSocket = false ∧ receiver.recvPosts.length = cut.length ∧
          receiver.session.recvQueue.isEmpty = true := by
  have hFull : Packet.Holds (⟨[9, 9] ++ [1, 2, 3] ++ List.replicate 1997 0, 2, 5, 2, 2000, 1, 0⟩ :
      Packet lanLayout) [9, 9] [1, 2, 3] (List.replicate 1997 0) :=
    ⟨rfl, rfl, by rw [List.length_append, List.length_replicate]; rfl, rfl, rfl, rfl, rfl⟩
  have hEmpty : Packet.Holds (⟨[9, 9] ++ [] ++ List.replicate 2000 7, 2, 2, 2, 2000, 1, 0⟩ :
      Packet lanLayout) [9, 9] [] (List.replicate 2000 7) :=
    ⟨rfl, rfl, by rw [List.length_append, List.length_replicate]; rfl, rfl, rfl, rfl, rfl⟩
  have hSent : ∀ p ∈ [(⟨[9, 9] ++ [1, 2, 3] ++ List.replicate 1997 0, 2, 5, 2, 2000, 1, 0⟩ :
      Packet lanLayout), ⟨[9, 9] ++ [] ++ List.replicate 2000 7, 2, 2, 2, 2000, 1, 0⟩],
      Sendable ⟨{}, rfl⟩ p := by
    intro p hMem
    rcases List.mem_cons.mp hMem with rfl | hLast
    · exact ⟨⟨_, _, _, hFull⟩, by decide, by decide⟩
    · obtain rfl := List.mem_singleton.mp hLast
      exact ⟨⟨_, _, _, hEmpty⟩, by decide, by decide⟩
  obtain ⟨images, hImages, hRun⟩ := postRun_roundTrip ⟨{}, rfl⟩
    (fun _ => ⟨List.replicate 2002 0, List.length_replicate⟩) .new (show lanSessionRecvQueueSize < 4087 by decide) _ hSent
  refine ⟨images, hImages, fun cut hStream hCut => ?_⟩
  obtain ⟨receiver, hDone, hDeliveries, hOpen, hPosts, hLeft⟩ := hRun cut hStream hCut
  refine ⟨receiver, hDone, ?_, hOpen, hPosts, hLeft⟩
  simp only [hDeliveries, List.map_cons, List.map_nil, hFull.body_eq, hEmpty.body_eq]

end NfNetwork.Lan
