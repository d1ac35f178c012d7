import NfNetwork.Chat.ChatUserManager
import NfNetwork.Chat.SectorManager

/-! The handlers of `EventHandler`, and what `ThreadProcessJob` does with one job. -/
namespace NfNetwork.Chat

open Machinery Handler

variable {Node : Type} [DecidableEq Node] (env : Env Node)

/-- The response to a login. -/
def chatResLogin (status : Nat) (accountNo : Int64) (sendPacket : Packet netLayout) :
    Option (Packet netLayout) := do
  let sendPacket ← sendPacket.putScalar 2 ePacketType.CS_CHAT_RES_LOGIN.value
  let sendPacket ← sendPacket.putScalar 1 status
  sendPacket.putScalar 8 accountNo.toUInt64.toNat

def jobUserLogin (job : Job) : Handler Node PUnit := do
  let packet ← recvPacket job
  let (q, _) ← ofRead (CsChatReqLogin.read packet)
  let user ← addUser env job.sessionId q
  let response ← allocSend env
  let s ← get
  let response ← ofWrite (match user with
    | some user => chatResLogin 1 (s.users user).accountNo response
    | none => chatResLogin 0 q.accountNo response)
  sendPacket env job.sessionId response

def chatResSectorMove (accountNo : Int64) (sectorX sectorY : Nat) (sendPacket : Packet netLayout) :
    Option (Packet netLayout) := do
  let sendPacket ← sendPacket.putScalar 2 ePacketType.CS_CHAT_RES_SECTOR_MOVE.value
  let sendPacket ← sendPacket.putScalar 8 accountNo.toUInt64.toNat
  let sendPacket ← sendPacket.putScalar 2 sectorX
  sendPacket.putScalar 2 sectorY

def jobUserSectorMove (job : Job) : Handler Node PUnit := do
  let packet ← recvPacket job
  let (q, _) ← ofRead (CsChatReqSectorMove.read packet)
  match ← findUserOrNull job.sessionId with
  | none => pure ⟨⟩
  | some user =>
    let s ← get
    if (s.users user).accountNo ≠ q.accountNo then disconnect job.sessionId
    else
      let response ← allocSend env
      let response ← ofWrite
        (chatResSectorMove (s.users user).accountNo q.sectorX q.sectorY response)
      let _ ← tryMove user ⟨q.sectorX, q.sectorY⟩
      sendPacket env job.sessionId response

/-- The message goes out under its own length; `PutBody` may put fewer bytes than it is told. -/
def chatResMessage (accountNo : Int64) (user : ChatUser) (messageLen : Nat) (message : Block)
    (sendPacket : Packet netLayout) : Option (Packet netLayout) := do
  let sendPacket ← sendPacket.putScalar 2 ePacketType.CS_CHAT_RES_MESSAGE.value
  let sendPacket ← sendPacket.putScalar 8 accountNo.toUInt64.toNat
  let (_, sendPacket) ← sendPacket.putBody user.id.val 40
  let (_, sendPacket) ← sendPacket.putBody user.nickname.val 40
  let sendPacket ← sendPacket.putScalar 2 messageLen
  let (_, sendPacket) ← sendPacket.putBody message messageLen
  some sendPacket

def jobUserMessage (job : Job) : Handler Node PUnit := do
  let packet ← recvPacket job
  let (q, packet) ← ofRead (CsChatReqMessage.read packet)
  let s ← get
  let (message, _) ← ofRead (packet.getBody s.messageBuffer q.messageLen)
  set { s with messageBuffer := message }
  match ← findUserOrNull job.sessionId with
  | none => disconnect job.sessionId
  | some user =>
    let s ← get
    if (s.users user).accountNo ≠ q.accountNo then disconnect job.sessionId
    else
      let response ← allocSend env
      let response ← ofWrite
        (chatResMessage q.accountNo (s.users user) q.messageLen s.messageBuffer.val response)
      sendAround env (s.users user).curSectorPos response

/-- `UpdateHeartBeat` is empty. -/
def jobUserHeartBeat (job : Job) : Handler Node PUnit := do
  let _ ← findUserOrNull job.sessionId

def jobSystemDisconnectUser (job : Job) : Handler Node PUnit := do
  match ← findUserOrNull job.sessionId with
  | none => pure ⟨⟩
  | some user =>
    removeSectorUser user
    removeUser job.sessionId

/-- `ChatUser::IsHeartBeating`. -/
def ChatUser.isHeartBeating (_ : ChatUser) : Bool := true

def jobSystemHeartBeat : Handler Node PUnit := do
  let s ← get
  s.userManager.sessionUserMap.entries.forM fun entry =>
    if (s.users entry.2).isHeartBeating then pure ⟨⟩ else disconnect entry.1

def handleJob (job : Job) : Handler Node PUnit :=
  match job.jobType with
  | .UserLogin => jobUserLogin env job
  | .UserSectorMove => jobUserSectorMove env job
  | .UserMessage => jobUserMessage env job
  | .UserHeartBeat => jobUserHeartBeat job
  | .SystemDisconnectUser => jobSystemDisconnectUser job
  | .SystemHeartBeat => jobSystemHeartBeat
  | .INVALID => throw (.thrown .logicError)

/-- `ThreadProcessJob` with a job it dequeued: a handler that throws did not handle it. -/
def processJob (s : EventHandler Node) (job : Job) : Except Undefined (EventHandler Node) :=
  match handleJob env job s with
  | .ok _ s => .ok s
  | .error (.thrown _) s => .ok { s with disconnected := s.disconnected ++ [job.sessionId] }
  | .error (.ended undefined) _ => .error undefined

/-- The jobs of a run, in the order they are dequeued. -/
def processJobs (s : EventHandler Node) (jobs : List Job) : Except Undefined (EventHandler Node) :=
  jobs.foldlM (processJob env) s

end NfNetwork.Chat
