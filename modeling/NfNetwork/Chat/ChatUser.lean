import NfNetwork.Packet.Reader
import NfNetwork.Share.Define

/-! The requests of a chat client and the user object built from a login. -/
namespace NfNetwork.Chat

/-- The values of `ePacketType`. -/
inductive ePacketType where
  | CS_CHAT_SERVER
  | CS_CHAT_REQ_LOGIN
  | CS_CHAT_RES_LOGIN
  | CS_CHAT_REQ_SECTOR_MOVE
  | CS_CHAT_RES_SECTOR_MOVE
  | CS_CHAT_REQ_MESSAGE
  | CS_CHAT_RES_MESSAGE
  | CS_CHAT_REQ_HEARTBEAT
  deriving DecidableEq, Repr

def ePacketType.value : ePacketType → Nat
  | .CS_CHAT_SERVER => 0
  | .CS_CHAT_REQ_LOGIN => 1
  | .CS_CHAT_RES_LOGIN => 2
  | .CS_CHAT_REQ_SECTOR_MOVE => 3
  | .CS_CHAT_RES_SECTOR_MOVE => 4
  | .CS_CHAT_REQ_MESSAGE => 5
  | .CS_CHAT_RES_MESSAGE => 6
  | .CS_CHAT_REQ_HEARTBEAT => 7

inductive eJobType where
  | UserLogin
  | UserSectorMove
  | UserMessage
  | UserHeartBeat
  | SystemDisconnectUser
  | SystemHeartBeat
  | INVALID
  deriving DecidableEq, Repr

/-- The two bytes a client sent as the type may be any number. -/
def getJobTypeFromPacketType (packetType : Nat) : eJobType :=
  if packetType = ePacketType.CS_CHAT_REQ_LOGIN.value then .UserLogin
  else if packetType = ePacketType.CS_CHAT_REQ_SECTOR_MOVE.value then .UserSectorMove
  else if packetType = ePacketType.CS_CHAT_REQ_MESSAGE.value then .UserMessage
  else if packetType = ePacketType.CS_CHAT_REQ_HEARTBEAT.value then .UserHeartBeat
  else .INVALID

/-- A job; `RecvPacket` is null for the system jobs. -/
structure Job where
  jobType : eJobType
  sessionId : Nat
  recvPacket : Option (Packet netLayout)

/-- `int2`. -/
structure Int2 where
  x : Int
  y : Int
  deriving DecidableEq, Repr

/-- The `mInvalidSectorPos` of users and of the sector manager. -/
def invalidSectorPos : Int2 := ⟨-1, -1⟩

/-- `wchar_t[20]`, two bytes each. -/
abbrev Name : Type := Bytes 40

structure CsChatReqLogin where
  type : Nat
  accountNo : Int64
  id : Name
  nickname : Name
  sessionKey : Bytes 64

structure CsChatReqSectorMove where
  type : Nat
  accountNo : Int64
  sectorX : Nat
  sectorY : Nat

structure CsChatReqMessage where
  type : Nat
  accountNo : Int64
  messageLen : Nat

section Requests

variable (recvPacket : Packet netLayout)

/-- The reads of `JobUserLogin`. -/
def CsChatReqLogin.read : Except ReadStop (CsChatReqLogin × Packet netLayout) := do
  let (type, recvPacket) ← recvPacket.getScalar 2
  let (accountNo, recvPacket) ← recvPacket.getScalar 8
  let (id, recvPacket) ← recvPacket.getField 40
  let (nickname, recvPacket) ← recvPacket.getField 40
  let (sessionKey, recvPacket) ← recvPacket.getField 64
  .ok (⟨type, .ofNat accountNo, id, nickname, sessionKey⟩, recvPacket)

/-- The reads of `JobUserSectorMove`. -/
def CsChatReqSectorMove.read : Except ReadStop (CsChatReqSectorMove × Packet netLayout) := do
  let (type, recvPacket) ← recvPacket.getScalar 2
  let (accountNo, recvPacket) ← recvPacket.getScalar 8
  let (sectorX, recvPacket) ← recvPacket.getScalar 2
  let (sectorY, recvPacket) ← recvPacket.getScalar 2
  .ok (⟨type, .ofNat accountNo, sectorX, sectorY⟩, recvPacket)

/-- The reads of `JobUserMessage` before the message itself. -/
def CsChatReqMessage.read : Except ReadStop (CsChatReqMessage × Packet netLayout) := do
  let (type, recvPacket) ← recvPacket.getScalar 2
  let (accountNo, recvPacket) ← recvPacket.getScalar 8
  let (messageLen, recvPacket) ← recvPacket.getScalar 2
  .ok (⟨type, .ofNat accountNo, messageLen⟩, recvPacket)

end Requests

/-- The characters before the terminator, if there is one. -/
def wideLength : List UInt8 → Option Nat
  | low :: high :: wide =>
    if low = 0 ∧ high = 0 then some 0 else (wideLength wide).map (· + 1)
  | _ => none

/-- `wcsncpy_s(dst, src, 20)`. The characters and the terminator are stored, what follows is
left. Without a terminator there is no room for one and the invalid parameter handler runs. -/
def wcsncpy_s (dst src : Name) : Option Name :=
  (wideLength src.val).map fun length =>
    let stored := 2 * (length + 1)
    ⟨src.val.take stored ++ dst.val.drop stored, by simp [src.property, dst.property]; omega⟩

/-- The session key of a login is stored and never read, so it is left out. -/
structure ChatUser where
  accountNo : Int64
  id : Name
  nickname : Name
  sessionId : Nat
  curSectorPos : Int2

/-- The constructor, over what the block held before. -/
def ChatUser.construct (block : ChatUser) (sessionId : Nat) (q : CsChatReqLogin) :
    Option ChatUser := do
  let id ← wcsncpy_s block.id q.id
  let nickname ← wcsncpy_s block.nickname q.nickname
  some ⟨q.accountNo, id, nickname, sessionId, invalidSectorPos⟩

theorem ChatUser.construct_keys {block user : ChatUser} {sessionId : Nat} {q : CsChatReqLogin}
    (h : block.construct sessionId q = some user) :
    user.accountNo = q.accountNo ∧ user.sessionId = sessionId ∧
      user.curSectorPos = invalidSectorPos := by
  simp only [construct, Option.bind_eq_bind, Option.bind_eq_some_iff] at h
  obtain ⟨id, _, nickname, _, h⟩ := h
  cases h
  exact ⟨rfl, rfl, rfl⟩

end NfNetwork.Chat
