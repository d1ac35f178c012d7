import NfNetwork.Net.ReceiveRun
import NfNetwork.Packet.Reader

/-! What `OnReceived` is given: packets with a body of any bytes, up to the room of a packet. -/
namespace NfNetwork.Net

open Machinery

variable {option : ServerComponentOption} {pool : Nat → netLayout.Memory}

/-- The packets a session has delivered. -/
def RecvSession.Delivered (session : RecvSession) : Prop :=
  ∀ p ∈ session.received, ∃ size ≤ netLayout.room, p.Placed size

/-- The session a pass goes on with or leaves has delivered such packets. -/
def PassDelivers : Pass RecvSession (RecvSession × Option RecvStop) → Prop
  | .again session => session.Delivered
  | .leave result => result.1.Delivered

theorem completePacket_delivers {session : RecvSession} {header : NetHeader} {desirePacketSize : Nat}
    (h : session.Delivered) :
    PassDelivers (completePacket option pool session header desirePacketSize) := by
  unfold completePacket
  dsimp only
  split
  · exact h
  · split
    · exact h
    · rename_i stored hStore
      split
      · exact h
      · split
        · exact h
        · rename_i hMoved
          have hPlaced := ((Packet.initial_placed (pool session.allocated)).store hStore).moveBodyWritePos
            (not_not.mp hMoved)
          split
          · exact h
          · exact h
          · rename_i decoded hDecode
            intro p hMem
            cases List.mem_append.mp hMem with
            | inl hOld => exact h p hOld
            | inr hNew =>
                rw [List.mem_singleton.mp hNew]
                exact ⟨_, hPlaced.2, hPlaced.1.doDecode hDecode⟩

theorem recvPass_delivers {session : RecvSession} (h : session.Delivered) :
    PassDelivers (recvPass option pool session) := by
  unfold recvPass
  dsimp only
  split
  · exact h
  · split
    · exact h
    · split
      · exact h
      · split
        · exact h
        · split
          · exact h
          · exact completePacket_delivers h

theorem recvCompletion_delivers {session : RecvSession} {passes : Nat} {bytes : List UInt8}
    {result : RecvSession × Option RecvStop} (h : session.Delivered)
    (hResult : recvCompletion option pool passes session bytes = some result) :
    result.1.Delivered := by
  simp only [recvCompletion, Option.bind_eq_bind, Option.bind_eq_some_iff] at hResult
  obtain ⟨recvQueue, _, ended, hRecv, hEnd⟩ := hResult
  have hEnded : ended.1.Delivered := by
    unfold networkRecvCompleted at hRecv
    dsimp only at hRecv
    split at hRecv
    · cases hRecv
      exact h
    · refine loop_keeps RecvSession.Delivered (fun result => result.1.Delivered) ?_ ?_ ?_
        hRecv
      · intro session next hSession hPass
        have hDelivers : PassDelivers (recvPass option pool session) := recvPass_delivers hSession
        rwa [hPass] at hDelivers
      · intro session result hSession hPass
        have hDelivers : PassDelivers (recvPass option pool session) := recvPass_delivers hSession
        rwa [hPass] at hDelivers
      · exact h
  split at hEnd
  · cases hEnd
    unfold recvPost
    split <;> exact hEnded
  · cases hEnd
    exact hEnded

/-- Every packet of a receiving run, whatever was sent and however it was cut. -/
theorem receiveRun_delivers {passes : Nat} {queue : SessionQueue} {cut : List (List UInt8)}
    {result : RecvSession × Option RecvStop}
    (hRun : receiveRun option pool passes queue cut = some result) : result.1.Delivered :=
  run_keeps RecvSession.Delivered recvCompletion_delivers (fun _ hMem => absurd hMem List.not_mem_nil) hRun

theorem unread_of_delivered {session : RecvSession} (h : session.Delivered) {p : Packet netLayout}
    (hMem : p ∈ session.received) : p.Unread [] p.body ∧ p.body.length ≤ netLayout.room := by
  obtain ⟨size, hRoom, hPlaced⟩ := h p hMem
  obtain ⟨hUnread, hLength⟩ := hPlaced.unread (Nat.le_trans hRoom (Nat.sub_le ..))
  exact ⟨hUnread, hLength ▸ hRoom⟩

/-- A client can have any body delivered that the limits allow. -/
theorem exists_delivered (option : ServerComponentOption) (pool : Nat → netLayout.Memory)
    (queue : SessionQueue) {passes : Nat} (hPasses : netSessionRecvQueueSize < passes)
    (body : List UInt8) (hLength : body.length ≤ min option.maxPacketBodyLength netLayout.room) :
    ∃ cut session, receiveRun option pool passes queue cut = some (session, none) ∧
      ∃ packet ∈ session.received, packet.body = body := by
  let sent : List Outgoing := [⟨pool 0, [.body body], 0⟩]
  have hBytes : ∀ o ∈ sent, o.bytes = body := by simp [sent, Outgoing.bytes, Packet.Put.bytes]
  have hSent : ∀ o ∈ sent, o.bytes.length ≤ min option.maxPacketBodyLength netLayout.room :=
    fun o hMem => (hBytes o hMem).symm ▸ hLength
  have hParse := parse_frames hSent
  generalize hStream : (sent.flatMap fun o => Packet.frame option.packetCode option.packetEncodeKey
    (UInt8.ofNat (o.rand % 255)) o.bytes) = stream at hParse
  have hCut : Admissible option pool passes queue (stream.map fun byte => [byte]) :=
    admissible_bytewise hPasses stream
  obtain ⟨session, hRun, hBodies, -, -⟩ := receiveRun_eq_parse hPasses hCut
  have hFlatten : (stream.map fun byte => [byte]).flatten = stream := by
    rw [← List.flatMap_def, List.flatMap_singleton']
  rw [hFlatten, hParse] at hRun hBodies
  refine ⟨_, session, hRun, ?_⟩
  have hMem : body ∈ session.bodies := by
    rw [hBodies]
    exact List.mem_map.mpr ⟨_, List.mem_singleton_self _, hBytes _ (List.mem_singleton_self _)⟩
  exact List.mem_map.mp hMem

end NfNetwork.Net
