import NfNetwork.Machinery.Loop
import NfNetwork.Buffer.RingBuffer
import NfNetwork.Share.Define

/-! `LanCore::NetworkRecvCompleted`. `assert` is compiled out, so a header's
length is checked against the configured bound only, and a `Dequeue` into
`GetBodyPtr()` that leaves `mBuffer` ends the run. -/
namespace NfNetwork.Lan

open Machinery Buffer

/-- A core that `Start` let through: the option passed `ValidateOption`. -/
structure LanCore where
  serverComponentOption : ServerComponentOption
  valid : validateOption serverComponentOption = true

/-- The receiving side of one `LanSession`. Each packet given to `OnReceived` is
recorded with the `Length` of its header. -/
structure RecvSession where
  recvQueue : RingBuffer
  isCloseSocket : Bool
  allocated : Nat
  received : List (Nat × Packet lanLayout)

/-- How `NetworkRecvCompleted` ends when it does not wait for more bytes. -/
inductive RecvStop where
  | cancelationIo
  | outOfBounds
  deriving DecidableEq, Repr

namespace RecvSession

/-- The session that a new client starts with, its queue cleared. -/
def init (recvQueue : RingBuffer) : RecvSession where
  recvQueue := recvQueue.clearBuffer
  isCloseSocket := false
  allocated := 0
  received := []

def cancelationIo (session : RecvSession) : RecvSession := { session with isCloseSocket := true }

/-- `OnReceived`, with the length its header announced. -/
def onReceived (session : RecvSession) (length : Nat) (recvPacket : Packet lanLayout) :
    RecvSession :=
  { session with received := session.received ++ [(length, recvPacket)] }

end RecvSession

section Receive

variable (core : LanCore) (pool : Nat → lanLayout.Memory)

/-- The block that completes one packet. The copied size is not compared with
the header's, nor is the size that the write position moved. -/
def completePacket (session : RecvSession) (length : Nat) :
    Pass RecvSession (RecvSession × Option RecvStop) :=
  let recvPacket : Packet lanLayout := .initial (pool session.allocated)
  let session := { session with allocated := session.allocated + 1 }
  match session.recvQueue.dequeue length with
  | none => .leave (session, some .outOfBounds)
  | some (bytes, recvQueue) =>
    let session := { session with recvQueue := recvQueue }
    match recvPacket.store recvPacket.bodyBegin bytes with
    | none => .leave (session, some .outOfBounds)
    | some recvPacket =>
      let (_, recvPacket) := recvPacket.moveBodyWritePos bytes.length
      .again (session.onReceived length recvPacket)

/-- One pass of the `while (true)` of `NetworkRecvCompleted`. -/
def recvPass (session : RecvSession) : Pass RecvSession (RecvSession × Option RecvStop) :=
  let usedSize := session.recvQueue.getUsedSize
  if usedSize < lanLayout.headerSize then .leave (session, none)
  else
    match session.recvQueue.peek lanLayout.headerSize with
    | none => .leave (session, some .outOfBounds)
    | some header =>
      let length := readUInt16 header 0
      if core.serverComponentOption.maxPacketBodyLength < length then
        .leave (session.cancelationIo, some .cancelationIo)
      else if usedSize < lanLayout.headerSize + length then .leave (session, none)
      else
        let (_, recvQueue) := session.recvQueue.moveRead lanLayout.headerSize
        completePacket pool { session with recvQueue := recvQueue } length

/-- `NetworkRecvCompleted`, allowed at most `passes` passes of its loop. Leaving
the loop by `break` it calls `RecvPost`, which posts `RingBuffer.recvBuffers`
without looking at the free space. -/
def networkRecvCompleted (passes : Nat) (session : RecvSession) (transferred : Nat) :
    Option (RecvSession × Option RecvStop) :=
  let (movedSize, recvQueue) := session.recvQueue.moveWrite transferred
  let session := { session with recvQueue := recvQueue }
  if movedSize < transferred then some (session.cancelationIo, some .cancelationIo)
  else loop (recvPass core pool) passes session

/-- One receive completion: the kernel has stored `bytes` through the posted
buffers, and the IO thread handles it. -/
def recvCompletion (passes : Nat) (session : RecvSession) (bytes : List UInt8) :
    Option (RecvSession × Option RecvStop) := do
  let recvQueue ← session.recvQueue.receive bytes
  networkRecvCompleted core pool passes { session with recvQueue := recvQueue } bytes.length

end Receive

end NfNetwork.Lan
