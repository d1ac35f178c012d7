import NfNetwork.Lan.RoundTrip
import NfNetwork.Machinery.HandledFraming
import NfNetwork.Packet.Reader

/-! The LAN playground's server: `OnReceived` reads a `uint64_t` and sends it back. Nothing between
`OnReceived` and the IO thread catches a `PacketReaderException`, or what `SendPacket` throws. -/
namespace NfNetwork.Lan

open Machinery Buffer

/-- What `OnReceived` hands to `WSASend` in the end: the packet from `AllocSend` with `val` as its body. -/
def echoImage (memory : lanLayout.Memory) (val : Nat) : Option (List UInt8) := do
  let sendPacket ← (Packet.initial memory).putScalar 8 val
  sendImage sendPacket

/-- A session with the packets that `OnReceived` has handed to `SendPacket`. -/
structure EchoSession where
  session : RecvSession
  answers : List (List UInt8)

/-- What ends a run: the framing, a `PacketReaderException`, or an exception of `SendPacket`. -/
inductive EchoStop where
  | received (stop : RecvStop)
  | threw
  | sendThrew
  deriving DecidableEq, Repr

section Server

-- `sendThrows` says which calls of `SendPacket` throw, counted from 0. One does where more packets wait
-- than fit into one send.
variable (core : LanCore) (recvPool sendPool : Nat → lanLayout.Memory) (sendThrows : Nat → Bool)

/-- `EventHandler::OnReceived`. -/
def EchoSession.onReceived (echoing : EchoSession) (recvPacket : Packet lanLayout) :
    Pass EchoSession (EchoSession × Option EchoStop) :=
  match recvPacket.getScalar 8 with
  | .error .packetReaderException => .leave (echoing, some .threw)
  | .error .outOfBounds => .leave (echoing, some (.received .outOfBounds))
  | .ok (val, _) => match echoImage (sendPool echoing.answers.length) val with
    | none => .leave (echoing, some (.received .outOfBounds))
    | some image =>
      let sent := { echoing with answers := echoing.answers ++ [image] }
      if sendThrows echoing.answers.length then .leave (sent, some .sendThrew) else .again sent

end Server

section Passes

variable {core : LanCore} {recvPool sendPool : Nat → lanLayout.Memory}

end Passes

end NfNetwork.Lan
