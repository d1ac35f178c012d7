import NfNetwork.Chat.JobRuns
import NfNetwork.Net.Delivered
import NfNetwork.Packet.Contents

/-! A client names the length of its message. `GetBody` compares it with the bytes left in the
packet only, and a packet may have more of them than `mMessageBuffer`. -/
namespace NfNetwork.Chat

open Machinery Handler

/-- The `MessageLen` in a body that has one. -/
def messageLenOf (body : List UInt8) : Nat := scalarOf ((body.drop 10).take 2)

section Read

variable {p : Packet netLayout} {body : List UInt8}

theorem CsChatReqMessage.read_throws (h : p.Unread [] body) (hShort : body.length < 12) :
    CsChatReqMessage.read p = .error .packetReaderException := by
  rcases Nat.lt_or_ge body.length 2 with hType | hType
  · simp only [CsChatReqMessage.read, h.getScalar_throws hType, bind, Except.bind]
  obtain ⟨p1, h1, hLeft1⟩ := h.getScalar_next 2 hType
  rcases Nat.lt_or_ge (body.drop 2).length 8 with hAccount | hAccount
  · simp only [CsChatReqMessage.read, h1, hLeft1.getScalar_throws hAccount, bind, Except.bind]
  obtain ⟨p2, h2, hLeft2⟩ := hLeft1.getScalar_next 8 hAccount
  have hLen : ((body.drop 2).drop 8).length < 2 := by
    rw [List.length_drop, List.length_drop]
    omega
  simp only [CsChatReqMessage.read, h1, h2, hLeft2.getScalar_throws hLen, bind, Except.bind]

theorem CsChatReqMessage.read_ok (h : p.Unread [] body) (hLength : 12 ≤ body.length) :
    ∃ q rest, CsChatReqMessage.read p = .ok (q, rest) ∧ q.messageLen = messageLenOf body ∧
      rest.Unread (body.take 12) (body.drop 12) := by
  obtain ⟨p1, h1, hLeft1⟩ := h.getScalar_next 2 (by omega)
  obtain ⟨p2, h2, hLeft2⟩ := hLeft1.getScalar_next 8 (by rw [List.length_drop]; omega)
  obtain ⟨p3, h3, hLeft3⟩ := hLeft2.getScalar_next 2 (by simp only [List.length_drop]; omega)
  refine ⟨_, p3, by simp only [CsChatReqMessage.read, h1, h2, h3, bind, Except.bind]; rfl, ?_, ?_⟩
  · simp [messageLenOf]
  · have hDone : body.take 12 =
        [] ++ body.take 2 ++ (body.drop 2).take 8 ++ ((body.drop 2).drop 8).take 2 := by
      rw [List.nil_append, List.drop_drop, ← List.take_add, ← List.take_add]
    have hLeft : body.drop 12 = ((body.drop 2).drop 8).drop 2 := by
      rw [List.drop_drop, List.drop_drop]
    rw [hDone, hLeft]
    exact hLeft3

end Read

/-- `PutBody` of the first bytes of a larger object. -/
theorem putBody_take {p : Packet netLayout} {header body tail : List UInt8} {size : Nat}
    {data : Block} (h : p.Holds header body tail) (hSize : size ≤ data.length)
    (hFits : body.length + size ≤ netLayout.room) :
    p.putBody data size = p.putBody (data.take size) size := by
  have hCount : min (p.bodyEnd - p.writePos) size = size := by
    rw [h.room_eq]
    omega
  have hDst : p.writePos + size ≤ p.buffer.length := by
    have hTail := h.tail_length
    have hRoom : netLayout.room ≤ netLayout.bodyCapacity := Nat.sub_le ..
    rw [h.writePos, h.total]
    omega
  have hTaken : size ≤ (data.take size).length := by
    rw [List.length_take]
    omega
  rw [Packet.putBody, Packet.putBody, hCount, Packet.switchCopy_eq hSize hDst,
    Packet.switchCopy_eq hTaken hDst, List.take_take, Nat.min_self]

/-- The packet says how many bytes of message it has, and has them. -/
def CarriesMessage (packet : Packet netLayout) (message : List UInt8) : Prop :=
  ∃ head, head.length = 90 ∧
    packet.body = head ++ Packet.scalarBytes 2 message.length ++ message

/-- A message that is in the buffer fits the room of the broadcast packet. -/
theorem chatResMessage_carries (accountNo : Int64) (user : ChatUser) (memory : netLayout.Memory)
    (message : Bytes messageBufferSize) {messageLen : Nat} (hLen : messageLen ≤ messageBufferSize) :
    ∃ response, chatResMessage accountNo user messageLen message.val (.initial memory) =
      some response ∧ CarriesMessage response (message.val.take messageLen) := by
  have hTaken : (message.val.take messageLen).length = messageLen := by
    rw [List.length_take, message.property, Nat.min_eq_left hLen]
  have hRoom : netLayout.room = 4091 := rfl
  have hBuffer : messageBufferSize = 2048 := rfl
  obtain ⟨p1, h1, hHolds1, _⟩ := (Packet.initial_holds memory).putScalar 2
    ePacketType.CS_CHAT_RES_MESSAGE.value (by decide)
  obtain ⟨p2, h2, hHolds2, _⟩ := hHolds1.putScalar 8 accountNo.toUInt64.toNat (by simp; decide)
  obtain ⟨p3, h3, hHolds3, _⟩ := hHolds2.putBody user.id.val (by simp [user.id.property]; decide)
  rw [user.id.property] at h3
  obtain ⟨p4, h4, hHolds4, _⟩ := hHolds3.putBody user.nickname.val
    (by simp [user.id.property, user.nickname.property]; decide)
  rw [user.nickname.property] at h4
  obtain ⟨p5, h5, hHolds5, _⟩ := hHolds4.putScalar 2 messageLen
    (by simp [user.id.property, user.nickname.property]; decide)
  have hLength : (([] ++ Packet.scalarBytes 2 ePacketType.CS_CHAT_RES_MESSAGE.value ++
      Packet.scalarBytes 8 accountNo.toUInt64.toNat ++ user.id.val ++ user.nickname.val) ++
      Packet.scalarBytes 2 messageLen).length = 92 := by
    simp [user.id.property, user.nickname.property]
  obtain ⟨p6, h6, hHolds6, _⟩ := hHolds5.putBody (message.val.take messageLen)
    (by rw [hLength, hTaken]; omega)
  rw [hTaken, ← putBody_take hHolds5 (by rw [message.property]; exact hLen)
    (by rw [hLength]; omega)] at h6
  refine ⟨p6, by simp only [chatResMessage, h1, h2, h3, h4, h5, h6, Option.bind_eq_bind, Option.bind_some], _, ?_,
    hHolds6.body_eq.trans (by rw [hTaken])⟩
  simp [user.id.property, user.nickname.property]

variable {Node : Type} {env : Env Node} {s : EventHandler Node} {job : Job}
  {packet : Packet netLayout}

/-- What was sent has all the bytes of the message in this packet, those that the client sent. -/
def SendsMessage (s : EventHandler Node) (packet : Packet netLayout) (s' : EventHandler Node) : Prop :=
  ∀ call ∈ s'.sent, call ∈ s.sent ∨
    CarriesMessage call.2 ((packet.body.drop 12).take (messageLenOf packet.body))

/-- The copy into `mMessageBuffer` stays in it, and what is broadcast has all the bytes of
its message, also when the broadcast is cut short by a call of `SendPacket` that throws. -/
structure MessageFits (env : Env Node) (s : EventHandler Node) (job : Job)
    (packet : Packet netLayout) : Prop where
  buffer : ∀ s', jobUserMessage env job s ≠ .error (.ended .outOfBounds) s'
  broadcast : Ends (jobUserMessage env job) s (fun _ s' => SendsMessage s packet s')
    fun _ s' => SendsMessage s packet s'

/-- Whether the message of this body is too long for the buffer. -/
def Overruns (body : List UInt8) : Prop :=
  12 + messageLenOf body ≤ body.length ∧ messageBufferSize < messageLenOf body

theorem jobUserMessage_overruns (hPacket : job.recvPacket = some packet)
    (h : packet.Unread [] packet.body) (hOver : Overruns packet.body) :
    jobUserMessage env job s = .error (.ended .outOfBounds) s := by
  obtain ⟨hWhole, hLong⟩ := hOver
  obtain ⟨q, rest, hRead, hLen, hLeft⟩ := CsChatReqMessage.read_ok h (by omega)
  have hGet : rest.getBody s.messageBuffer q.messageLen = .error .outOfBounds := by
    rw [hLen]
    refine hLeft.getBody_overruns ?_ (Nat.lt_trans (by decide) hLong) hLong
    rw [List.length_drop]
    omega
  have hEnds : Ends (jobUserMessage env job) s (fun _ _ => False)
      fun stop s' => stop = .ended .outOfBounds ∧ s' = s := by
    simp only [jobUserMessage, ends_bind, recvPacket, hPacket, ends_pure, hRead, ends_ofRead_ok,
      ends_get, hGet, ends_ofRead_outOfBounds, and_self]
  cases hEnd : jobUserMessage env job s with
  | ok _ s' => exact (hEnds.of_ok hEnd).elim
  | error stop s' =>
      obtain ⟨rfl, rfl⟩ := hEnds.of_error hEnd
      rfl

/-- The client's bytes are the message. -/
theorem jobUserMessage_fits (env : Env Node) (s : EventHandler Node) (hPacket : job.recvPacket = some packet)
    (h : packet.Unread [] packet.body) (hFits : ¬ Overruns packet.body) :
    Ends (jobUserMessage env job) s (fun _ s' => SendsMessage s packet s')
      fun stop s' => (∃ exn, stop = .thrown exn) ∧ SendsMessage s packet s' := by
  have hSame : SendsMessage s packet s := fun _ hCall => .inl hCall
  simp only [jobUserMessage, ends_bind, recvPacket, hPacket, ends_pure]
  rcases Nat.lt_or_ge packet.body.length 12 with hShort | hFields
  · rw [CsChatReqMessage.read_throws h hShort]
    exact ⟨⟨_, rfl⟩, hSame⟩
  obtain ⟨q, rest, hRead, hLen, hLeft⟩ := CsChatReqMessage.read_ok h hFields
  simp only [hRead, ends_ofRead_ok, ends_get]
  rcases Nat.lt_or_ge (packet.body.drop 12).length q.messageLen with hShort | hWhole
  · rw [hLeft.getBody_throws _ hShort]
    exact ⟨⟨_, rfl⟩, hSame⟩
  have hBuffer : q.messageLen ≤ messageBufferSize := by
    rw [List.length_drop] at hWhole
    rw [hLen] at hWhole ⊢
    by_contra hLong
    exact hFits ⟨by omega, by omega⟩
  obtain ⟨message, hGet, hMessage⟩ := hLeft.getBody_eq s.messageBuffer hWhole hBuffer
  simp only [hGet, ends_ofRead_ok, findUserOrNull, ends_bind, ends_set, ends_get, ends_pure]
  cases s.userManager.sessionUserMap.lookup job.sessionId with
  | none => exact hSame
  | some user =>
      simp only [ends_bind, ends_get]
      split
      · exact hSame
      obtain ⟨response, hResponse, hCarries⟩ := chatResMessage_carries q.accountNo (s.users user)
        (env.sendMemory s.allocated) message hBuffer
      simp only [ends_bind, ends_allocSend, hResponse, ends_ofWrite_some]
      have hBytes : message.val.take q.messageLen =
          (packet.body.drop 12).take (messageLenOf packet.body) := by
        rw [hMessage, hLen, List.take_left']
        rw [List.length_take, ← hLen]
        exact Nat.min_eq_left hWhole
      have hSends {s' : EventHandler Node} (hSent : ∀ call ∈ s'.sent, call ∈ s.sent ∨ call.2 = response) :
          SendsMessage s packet s' := by
        refine fun call hCall => (hSent call hCall).imp_right fun hResponse => ?_
        rw [hResponse, ← hBytes]
        exact hCarries
      refine (sendAround_ends env).mono (fun _ _ hSent => hSends hSent.sent) ?_
      rintro _ s' ⟨rfl, hSent⟩
      exact ⟨⟨_, rfl⟩, hSends hSent.sent⟩

/-- The message of a delivered packet fits unless its client found the gap between the limits:
more than the buffer, yet no more than the packet. -/
theorem messageFits_iff {option : ServerComponentOption} {pool : Nat → netLayout.Memory}
    {passes : Nat} {queue : Net.SessionQueue} {cut : List (List UInt8)} {session : Net.RecvSession}
    {stop : Option Net.RecvStop} (env : Env Node) (s : EventHandler Node) (sessionId : Nat)
    (hRun : Net.receiveRun option pool passes queue cut = some (session, stop))
    (hMem : packet ∈ session.received) :
    MessageFits env s ⟨.UserMessage, sessionId, some packet⟩ packet ↔ ¬ Overruns packet.body := by
  obtain ⟨hUnread, -⟩ := Net.unread_of_delivered (Net.receiveRun_delivers hRun) hMem
  constructor
  · intro hFits hOver
    exact hFits.buffer s (jobUserMessage_overruns rfl hUnread hOver)
  · intro hFits
    have hEnds := jobUserMessage_fits env s
      (show Job.recvPacket ⟨.UserMessage, sessionId, some packet⟩ = some packet from rfl) hUnread
      hFits
    refine ⟨fun s' hEnd => ?_, hEnds.mono (fun _ _ hSent => hSent) fun _ _ hStop => hStop.2⟩
    obtain ⟨_, hThrown⟩ := (hEnds.of_error hEnd).1
    cases hThrown

/-- What `App::Run` starts the server with. -/
def chatOption : ServerComponentOption where
  maxPacketBodyLength := 65535
  networkIOThreadCount := 4
  maxSessionCount := 17000
  packetCode := 0x77
  packetEncodeKey := 0x32

/-- A message request of account 0. -/
private def messageBody (messageLen : Nat) : List UInt8 :=
  [5, 0] ++ List.replicate 8 0 ++ Packet.scalarBytes 2 messageLen ++ List.replicate messageLen 0

/-- Any short message. -/
theorem messageFits_iff_short :
    ∃ session : Net.RecvSession, ∃ packet ∈ session.received, packet.body = messageBody 2 ∧
      (MessageFits zeroEnv (.new zeroEnv fun _ => zeroUser) ⟨.UserMessage, 1, some packet⟩ packet ↔
        ¬ Overruns packet.body) := by
  have hPasses : netSessionRecvQueueSize < 8193 := by decide
  obtain ⟨cut, session, hRun, packet, hMem, hBody⟩ := Net.exists_delivered chatOption
    zeroEnv.sendMemory .new hPasses (messageBody 2) (by decide)
  exact ⟨session, packet, hMem, hBody, messageFits_iff zeroEnv _ 1 hRun hMem⟩

/-- A message of 2049 bytes, one more than the buffer has. -/
theorem messageFits_fails :
    ¬ ∀ (cut : List (List UInt8)) (session : Net.RecvSession) (stop : Option Net.RecvStop)
      (packet : Packet netLayout) (s : EventHandler Nat) (sessionId : Nat),
      Net.receiveRun chatOption zeroEnv.sendMemory 8193 .new cut = some (session, stop) →
      packet ∈ session.received →
      MessageFits zeroEnv s ⟨.UserMessage, sessionId, some packet⟩ packet := by
  intro hAll
  have hPasses : netSessionRecvQueueSize < 8193 := by decide
  obtain ⟨cut, session, hRun, packet, hMem, hBody⟩ := Net.exists_delivered chatOption
    zeroEnv.sendMemory .new hPasses (messageBody 2049) (by decide +kernel)
  obtain ⟨hUnread, -⟩ := Net.unread_of_delivered (Net.receiveRun_delivers hRun) hMem
  have hFits := hAll cut session none packet (.new zeroEnv fun _ => zeroUser) 1 hRun hMem
  refine hFits.buffer _ (jobUserMessage_overruns rfl hUnread ?_)
  rw [hBody]
  exact ⟨by decide +kernel, by decide +kernel⟩

end NfNetwork.Chat
