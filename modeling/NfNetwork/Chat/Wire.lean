import NfNetwork.Chat.MessageBuffer
import NfNetwork.Chat.Room

/-! The requests and replies of the chat as bytes. A request is what the fields of the received
body say, a reply what a client finds in the body it is sent. -/
namespace NfNetwork.Chat

open Machinery

/-- `size` bytes of a body from an offset on. -/
def fieldOf (body : List UInt8) (offset size : Nat) : List UInt8 := (body.drop offset).take size

def accountOf (bytes : List UInt8) : Int64 := .ofNat (scalarOf bytes)

/-- The characters of a `wchar_t[20]` before its terminator. -/
def textOf (bytes : List UInt8) : List UInt8 := bytes.take (2 * (wideLength bytes).getD 20)

abbrev ChatRequest : Type := Request Int64 (List UInt8) Int2 (List UInt8)

abbrev ChatReply : Type := Reply Int64 (List UInt8) Int2 (List UInt8)

/-- What a job asks for, by its type and the body of its packet. -/
def requestOf (jobType : eJobType) (body : List UInt8) : ChatRequest :=
  match jobType with
  | .UserLogin =>
      if body.length < 154 then .malformed
      else .login (accountOf (fieldOf body 2 8)) (textOf (fieldOf body 10 40)) (textOf (fieldOf body 50 40))
  | .UserSectorMove =>
      if body.length < 14 then .malformed
      else .sectorMove (accountOf (fieldOf body 2 8))
        ⟨scalarOf (fieldOf body 10 2), scalarOf (fieldOf body 12 2)⟩
  | .UserMessage =>
      if body.length < 12 + messageLenOf body then .malformed
      else .message (accountOf (fieldOf body 2 8)) (fieldOf body 12 (messageLenOf body))
  | .UserHeartBeat | .SystemHeartBeat => .heartBeat
  | .SystemDisconnectUser => .leave
  | .INVALID => .malformed

def Job.request (job : Job) : ChatRequest :=
  requestOf job.jobType ((job.recvPacket.map Packet.body).getD [])

/-- What a client finds in a body. -/
def Reply.parse (body : List UInt8) : Option ChatReply :=
  let type := scalarOf (fieldOf body 0 2)
  if type = ePacketType.CS_CHAT_RES_LOGIN.value ∧ body.length = 11 then
    some (.login (scalarOf (fieldOf body 2 1) = 1) (accountOf (fieldOf body 3 8)))
  else if type = ePacketType.CS_CHAT_RES_SECTOR_MOVE.value ∧ body.length = 14 then
    some (.sectorMove (accountOf (fieldOf body 2 8))
      ⟨scalarOf (fieldOf body 10 2), scalarOf (fieldOf body 12 2)⟩)
  else if type = ePacketType.CS_CHAT_RES_MESSAGE.value ∧ 92 ≤ body.length ∧
      scalarOf (fieldOf body 90 2) = body.length - 92 then
    some (.message (accountOf (fieldOf body 2 8)) (textOf (fieldOf body 10 40))
      (textOf (fieldOf body 50 40)) (body.drop 92))
  else none

/-- An account number comes back from its eight bytes, sign included. -/
theorem accountOf_scalarBytes (accountNo : Int64) :
    accountOf (Packet.scalarBytes 8 accountNo.toUInt64.toNat) = accountNo := by
  rw [accountOf, scalarOf_scalarBytes, show 256 ^ 8 = 2 ^ 64 from rfl,
    Nat.mod_eq_of_lt accountNo.toUInt64.toNat_lt]
  cases accountNo
  simp [Int64.ofNat]

section Requests

/-- A login request is 154 bytes, of which these fields are read. -/
theorem CsChatReqLogin.reads : Packet.Reads CsChatReqLogin.read 154 fun bytes q =>
    q.accountNo = accountOf (fieldOf bytes 2 8) ∧ q.id.val = fieldOf bytes 10 40 ∧
      q.nickname.val = fieldOf bytes 50 40 := by
  have hType : Packet.Reads (fun p : Packet netLayout => p.getScalar 2) 2 _ := Packet.reads_getScalar 2
  have hReads := hType.bind fun type =>
    (Packet.reads_getScalar 8).bind fun accountNo => (Packet.reads_getField 40).bind fun id =>
      (Packet.reads_getField 40).bind fun nickname => (Packet.reads_getField 64).bind fun sessionKey =>
        Packet.reads_pure (⟨type, .ofNat accountNo, id, nickname, sessionKey⟩ : CsChatReqLogin)
  refine hReads.mono ?_
  rintro bytes q hLength ⟨type, _, accountNo, hAccount, id, hId, nickname, hNickname, sessionKey, _, _, rfl⟩
  refine ⟨congrArg Int64.ofNat hAccount, ?_, ?_⟩
  · simpa [fieldOf, List.drop_drop] using hId
  · simpa [fieldOf, List.drop_drop] using hNickname

/-- A move request is 14 bytes. -/
theorem CsChatReqSectorMove.reads : Packet.Reads CsChatReqSectorMove.read 14 fun bytes q =>
    q.accountNo = accountOf (fieldOf bytes 2 8) ∧ q.sectorX = scalarOf (fieldOf bytes 10 2) ∧
      q.sectorY = scalarOf (fieldOf bytes 12 2) := by
  have hType : Packet.Reads (fun p : Packet netLayout => p.getScalar 2) 2 _ := Packet.reads_getScalar 2
  have hReads := hType.bind fun type =>
    (Packet.reads_getScalar 8).bind fun accountNo => (Packet.reads_getScalar 2).bind fun sectorX =>
      (Packet.reads_getScalar 2).bind fun sectorY =>
        Packet.reads_pure (⟨type, .ofNat accountNo, sectorX, sectorY⟩ : CsChatReqSectorMove)
  refine hReads.mono ?_
  rintro bytes q hLength ⟨type, _, accountNo, hAccount, sectorX, hX, sectorY, hY, _, rfl⟩
  refine ⟨congrArg Int64.ofNat hAccount, ?_, ?_⟩
  · simpa [fieldOf, List.drop_drop] using hX
  · simpa [fieldOf, List.drop_drop] using hY

/-- The head of a message request is 12 bytes. -/
theorem CsChatReqMessage.reads : Packet.Reads CsChatReqMessage.read 12 fun bytes q =>
    q.accountNo = accountOf (fieldOf bytes 2 8) ∧ q.messageLen = messageLenOf bytes := by
  have hType : Packet.Reads (fun p : Packet netLayout => p.getScalar 2) 2 _ := Packet.reads_getScalar 2
  have hReads := hType.bind fun type =>
    (Packet.reads_getScalar 8).bind fun accountNo => (Packet.reads_getScalar 2).bind fun messageLen =>
      Packet.reads_pure (⟨type, .ofNat accountNo, messageLen⟩ : CsChatReqMessage)
  refine hReads.mono ?_
  rintro bytes q hLength ⟨type, _, accountNo, hAccount, messageLen, hLen, _, rfl⟩
  refine ⟨congrArg Int64.ofNat hAccount, ?_⟩
  simpa [messageLenOf, List.drop_drop] using hLen

/-- The fields of the first bytes. -/
theorem fieldOf_take (body : List UInt8) {offset size count : Nat} (h : offset + size ≤ count) :
    fieldOf (body.take count) offset size = fieldOf body offset size := by
  rw [fieldOf, fieldOf, List.drop_take, List.take_take, Nat.min_eq_left (by omega)]

end Requests

section Replies

open Packet (Put scalarBytes)

/-- The calls that fill the response to a login. -/
def loginPuts (status : Nat) (accountNo : Int64) : List Put :=
  [.scalar 2 ePacketType.CS_CHAT_RES_LOGIN.value, .scalar 1 status, .scalar 8 accountNo.toUInt64.toNat]

def sectorMovePuts (accountNo : Int64) (sectorX sectorY : Nat) : List Put :=
  [.scalar 2 ePacketType.CS_CHAT_RES_SECTOR_MOVE.value, .scalar 8 accountNo.toUInt64.toNat,
    .scalar 2 sectorX, .scalar 2 sectorY]

def messagePuts (accountNo : Int64) (user : ChatUser) (message : List UInt8) : List Put :=
  [.scalar 2 ePacketType.CS_CHAT_RES_MESSAGE.value, .scalar 8 accountNo.toUInt64.toNat,
    .body user.id.val, .body user.nickname.val, .scalar 2 message.length, .body message]

variable {p : Packet netLayout}

/-- What the login answer writes, as a list of puts. -/
theorem chatResLogin_eq (status : Nat) (accountNo : Int64) :
    chatResLogin status accountNo p = p.fill (loginPuts status accountNo) := by
  simp [chatResLogin, loginPuts, Packet.fill]

/-- The same for the move answer. -/
theorem chatResSectorMove_eq (accountNo : Int64) (sectorX sectorY : Nat) :
    chatResSectorMove accountNo sectorX sectorY p = p.fill (sectorMovePuts accountNo sectorX sectorY) := by
  simp [chatResSectorMove, sectorMovePuts, Packet.fill]

/-- Only the bytes that are copied matter. -/
theorem switchCopy_take (dst : Block) (offset : Nat) {src : Block} {count size : Nat} (hCount : count ≤ size)
    (hSize : size ≤ src.length) :
    Packet.switchCopy dst offset (src.take size) count = Packet.switchCopy dst offset src count := by
  have hCopy (dst : Block) (offset : Nat) {srcOffset n : Nat} (h : srcOffset + n ≤ size) :
      Packet.copyBytes dst offset (src.take size) srcOffset n = Packet.copyBytes dst offset src srcOffset n := by
    rw [Packet.copyBytes, Packet.copyBytes, readBytes_take h hSize]
  unfold Packet.switchCopy
  split
  all_goals simp (disch := omega) only [hCopy]

/-- And for a message. -/
theorem chatResMessage_eq (accountNo : Int64) (user : ChatUser) (message : Block) {messageLen : Nat}
    (hLen : messageLen ≤ message.length) :
    chatResMessage accountNo user messageLen message p =
      p.fill (messagePuts accountNo user (message.take messageLen)) := by
  have hTaken : (message.take messageLen).length = messageLen := by
    rw [List.length_take, Nat.min_eq_left hLen]
  have hPut (p : Packet netLayout) :
      p.putBody (message.take messageLen) messageLen = p.putBody message messageLen := by
    rw [Packet.putBody, Packet.putBody, switchCopy_take _ _ (Nat.min_le_right ..) hLen]
  simp [chatResMessage, messagePuts, Packet.fill, hTaken, hPut, user.id.property, user.nickname.property]

/-- A new packet that is filled within its room holds what was put. -/
theorem fill_initial (memory : netLayout.Memory) (puts : List Put)
    (hFits : (puts.flatMap Put.bytes).length ≤ netLayout.room) :
    ∃ response, (Packet.initial memory).fill puts = some response ∧
      response.body = puts.flatMap Put.bytes := by
  have hRoom : ([] : List UInt8).length + (puts.flatMap Put.bytes).length ≤ netLayout.room := by
    rwa [List.length_nil, Nat.zero_add]
  obtain ⟨response, _, hFill, hHolds, _⟩ := (Packet.initial_holds memory).fill hRoom
  exact ⟨response, hFill, hHolds.body_eq⟩

/-- A peer reads the answer that was written. -/
theorem parse_loginPuts (accepted : Bool) (accountNo : Int64) :
    Reply.parse ((loginPuts accepted.toNat accountNo).flatMap Put.bytes) = some (.login accepted accountNo) := by
  have hType : scalarOf (scalarBytes 2 ePacketType.CS_CHAT_RES_LOGIN.value) =
      ePacketType.CS_CHAT_RES_LOGIN.value := rfl
  have hStatus : scalarOf (scalarBytes 1 accepted.toNat) = accepted.toNat := by cases accepted <;> rfl
  simp [loginPuts, Put.bytes, Reply.parse, fieldOf, List.drop_append, List.take_of_length_le,
    List.drop_eq_nil_of_le, hType, hStatus, accountOf_scalarBytes]

/-- Coordinates of 16 bits come back. -/
theorem parse_sectorMovePuts (accountNo : Int64) {sectorX sectorY : Nat} (hX : sectorX < 2 ^ 16)
    (hY : sectorY < 2 ^ 16) :
    Reply.parse ((sectorMovePuts accountNo sectorX sectorY).flatMap Put.bytes) =
      some (.sectorMove accountNo ⟨sectorX, sectorY⟩) := by
  have hType : scalarOf (scalarBytes 2 ePacketType.CS_CHAT_RES_SECTOR_MOVE.value) =
      ePacketType.CS_CHAT_RES_SECTOR_MOVE.value := rfl
  have hOther : ePacketType.CS_CHAT_RES_SECTOR_MOVE.value ≠ ePacketType.CS_CHAT_RES_LOGIN.value := by decide
  simp [sectorMovePuts, Put.bytes, Reply.parse, fieldOf, List.drop_append,
    List.take_of_length_le, List.drop_eq_nil_of_le, hType, hOther, accountOf_scalarBytes,
    scalarOf_scalarBytes]
  omega

/-- Both names come back up to their terminators, the message whole. -/
theorem parse_messagePuts (accountNo : Int64) (user : ChatUser) {message : List UInt8}
    (hLength : message.length < 2 ^ 16) :
    Reply.parse ((messagePuts accountNo user message).flatMap Put.bytes) =
      some (.message accountNo (textOf user.id.val) (textOf user.nickname.val) message) := by
  have hType : scalarOf (scalarBytes 2 ePacketType.CS_CHAT_RES_MESSAGE.value) =
      ePacketType.CS_CHAT_RES_MESSAGE.value := rfl
  have hLogin : ePacketType.CS_CHAT_RES_MESSAGE.value ≠ ePacketType.CS_CHAT_RES_LOGIN.value := by decide
  have hMove : ePacketType.CS_CHAT_RES_MESSAGE.value ≠ ePacketType.CS_CHAT_RES_SECTOR_MOVE.value := by decide
  simp [messagePuts, Put.bytes, Reply.parse, fieldOf, List.drop_append, List.drop_eq_nil_of_le, hType,
    hLogin, hMove, accountOf_scalarBytes, scalarOf_scalarBytes, user.id.property, user.nickname.property]
  omega

/-- A client finds in the responses what they were made from. -/
theorem chatResLogin_parses (memory : netLayout.Memory) (accepted : Bool) (accountNo : Int64) :
    ∃ response, chatResLogin accepted.toNat accountNo (.initial memory) = some response ∧
      Reply.parse response.body = some (.login accepted accountNo) := by
  obtain ⟨response, hFill, hBody⟩ := fill_initial memory (loginPuts accepted.toNat accountNo) (by
    simp [loginPuts, Put.bytes]
    decide)
  refine ⟨response, (chatResLogin_eq ..).trans hFill, ?_⟩
  rw [hBody, parse_loginPuts]

/-- So the packet of a move parses to it. -/
theorem chatResSectorMove_parses (memory : netLayout.Memory) (accountNo : Int64) {sectorX sectorY : Nat}
    (hX : sectorX < 2 ^ 16) (hY : sectorY < 2 ^ 16) :
    ∃ response, chatResSectorMove accountNo sectorX sectorY (.initial memory) = some response ∧
      Reply.parse response.body = some (.sectorMove accountNo ⟨sectorX, sectorY⟩) := by
  obtain ⟨response, hFill, hBody⟩ :=
    fill_initial memory (sectorMovePuts accountNo sectorX sectorY) (by
      simp [sectorMovePuts, Put.bytes]
      decide)
  refine ⟨response, (chatResSectorMove_eq ..).trans hFill, ?_⟩
  rw [hBody, parse_sectorMovePuts accountNo hX hY]

/-- And the packet of a message. -/
theorem chatResMessage_parses (memory : netLayout.Memory) (accountNo : Int64) (user : ChatUser)
    (message : Bytes messageBufferSize) {messageLen : Nat} (hLen : messageLen ≤ messageBufferSize) :
    ∃ response, chatResMessage accountNo user messageLen message.val (.initial memory) = some response ∧
      Reply.parse response.body = some (.message accountNo (textOf user.id.val)
        (textOf user.nickname.val) (message.val.take messageLen)) := by
  have hBuffer : messageBufferSize = 2048 := rfl
  have hRoom : netLayout.room = 4091 := rfl
  have hTaken : (message.val.take messageLen).length = messageLen := by
    rw [List.length_take, message.property, Nat.min_eq_left hLen]
  obtain ⟨response, hFill, hBody⟩ :=
    fill_initial memory (messagePuts accountNo user (message.val.take messageLen)) (by
      simp [messagePuts, Put.bytes, user.id.property, user.nickname.property, message.property]
      omega)
  refine ⟨response, (chatResMessage_eq accountNo user message.val ?_).trans hFill, ?_⟩
  · rw [message.property]
    exact hLen
  · rw [hBody, parse_messagePuts accountNo user (by omega)]

end Replies

end NfNetwork.Chat
