import NfNetwork.Machinery.Loop
import NfNetwork.Buffer.RingBuffer
import NfNetwork.Share.Define

/-! `NetCore::NetworkRecvCompleted` and the part of `RecvPost` that decides
whether another receive is posted. `assert` is compiled out, and a call to
`CrashDump::Crash` or an access outside a buffer ends the run. -/
namespace NfNetwork.Net

open Machinery Buffer

/-- `NetHeader`, read from the first bytes of a frame. -/
structure NetHeader where
  code : UInt8
  length : Nat
  randKey : UInt8
  checkSum : UInt8

/-- The packed fields of a header whose storage was zeroed before the copy. -/
def NetHeader.ofBytes (bytes : List UInt8) : NetHeader where
  code := bytes.getD 0 0
  length := readUInt16 bytes 1
  randKey := bytes.getD 3 0
  checkSum := bytes.getD 4 0

/-- The receiving side of one `NetSession`: its queue, the close flag, the
packets drawn from the receive pool so far and those given to `OnReceived`. -/
structure RecvSession where
  recvQueue : RingBuffer
  isCloseSocket : Bool
  allocated : Nat
  received : List (Packet netLayout)

/-- How `NetworkRecvCompleted` ends when it does not wait for more bytes. -/
inductive RecvStop where
  | cancelationIo
  | failedDequeue
  | failedMoveBodyWritePos
  | outOfBounds
  deriving DecidableEq, Repr

/-- The endings in which the server crashes or has left a buffer. -/
def RecvStop.isCrash : RecvStop → Bool
  | .cancelationIo => false
  | .failedDequeue | .failedMoveBodyWritePos | .outOfBounds => true

namespace RecvSession

/-- `NetSession::Init` clears the queue it inherits from an earlier client. -/
def init (recvQueue : RingBuffer) : RecvSession where
  recvQueue := recvQueue.clearBuffer
  isCloseSocket := false
  allocated := 0
  received := []

def cancelationIo (session : RecvSession) : RecvSession := { session with isCloseSocket := true }

/-- `OnReceived`, which is assumed to return normally. -/
def onReceived (session : RecvSession) (recvPacket : Packet netLayout) : RecvSession :=
  { session with received := session.received ++ [recvPacket] }

end RecvSession

section Receive

variable (option : ServerComponentOption) (pool : Nat → netLayout.Memory)

/-- The block that completes one packet: allocate, fill, decode, deliver. -/
def completePacket (session : RecvSession) (header : NetHeader) (desirePacketSize : Nat) :
    Pass RecvSession (RecvSession × Option RecvStop) :=
  let recvPacket : Packet netLayout := .initial (pool session.allocated)
  let session := { session with allocated := session.allocated + 1 }
  match session.recvQueue.dequeue desirePacketSize with
  | none => .leave (session, some .outOfBounds)
  | some (bytes, recvQueue) =>
    let session := { session with recvQueue := recvQueue }
    match recvPacket.store 0 bytes with
    | none => .leave (session, some .outOfBounds)
    | some recvPacket =>
      if bytes.length ≠ desirePacketSize then .leave (session, some .failedDequeue)
      else
        let (movedWritePos, recvPacket) := recvPacket.moveBodyWritePos header.length
        if movedWritePos ≠ header.length then .leave (session, some .failedMoveBodyWritePos)
        else
          match recvPacket.doDecode option.packetEncodeKey header.randKey with
          | none => .leave (session, some .outOfBounds)
          | some (false, _) => .leave (session.cancelationIo, some .cancelationIo)
          | some (true, recvPacket) => .again (session.onReceived recvPacket)

/-- One pass of the `while (true)` of `NetworkRecvCompleted`. -/
def recvPass (session : RecvSession) : Pass RecvSession (RecvSession × Option RecvStop) :=
  let usedSize := session.recvQueue.getUsedSize
  if usedSize < netLayout.headerSize then .leave (session, none)
  else
    match session.recvQueue.peek netLayout.headerSize with
    | none => .leave (session, some .outOfBounds)
    | some bytes =>
      let header := NetHeader.ofBytes bytes
      if header.code ≠ option.packetCode then .leave (session.cancelationIo, some .cancelationIo)
      else if option.maxPacketBodyLength < header.length ∨
          netLayout.bodyCapacity ≤ header.length then
        .leave (session.cancelationIo, some .cancelationIo)
      else
        let desirePacketSize := netLayout.headerSize + header.length
        if usedSize < desirePacketSize then .leave (session, none)
        else completePacket option pool session header desirePacketSize

/-- `NetworkRecvCompleted`, allowed at most `passes` passes of its loop. -/
def networkRecvCompleted (passes : Nat) (session : RecvSession) (transferred : Nat) :
    Option (RecvSession × Option RecvStop) :=
  let (movedSize, recvQueue) := session.recvQueue.moveWrite transferred
  let session := { session with recvQueue := recvQueue }
  if movedSize ≠ transferred then some (session.cancelationIo, some .cancelationIo)
  else loop (recvPass option pool) passes session

/-- `RecvPost` closes a session whose queue is full; otherwise it posts
`RingBuffer.recvBuffers`. -/
def recvPost (session : RecvSession) : RecvSession :=
  if session.recvQueue.getEnquableSize = 0 then session.cancelationIo else session

/-- One receive completion: the kernel has stored `bytes` through the posted
buffers, and the IO thread handles it. -/
def recvCompletion (passes : Nat) (session : RecvSession) (bytes : List UInt8) :
    Option (RecvSession × Option RecvStop) := do
  let recvQueue ← session.recvQueue.receive bytes
  let session := { session with recvQueue := recvQueue }
  match ← networkRecvCompleted option pool passes session bytes.length with
  | (session, none) => some (recvPost session, none)
  | (session, some reason) => some (session, some reason)

end Receive

end NfNetwork.Net
