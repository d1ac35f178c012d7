import NfNetwork.Packet.Packet

/-! The sizes of `nf/network/define/Define.hpp` and the option record that both
servers start from. -/
namespace NfNetwork

def lanSessionRecvQueueSize : Nat := 4086
def lanPacketBodyCapacity : Nat := 2000
def netSessionRecvQueueSize : Nat := 8 * 1024
def netPacketBodyCapacity : Nat := 4 * 1024
def maxPacketCountPerSend : Nat := 300

/-- `common::net::Packet`: the header is `NetHeader`, five packed bytes. -/
def netLayout : Layout := ⟨5, netPacketBodyCapacity⟩

/-- `common::lan::Packet`: the header is `LanHeader`, two bytes. -/
def lanLayout : Layout := ⟨2, lanPacketBodyCapacity⟩

/-- The fields of `ServerComponentOption` that the receivers, `ValidateOption` and
`NetSessionManager::Init` read. -/
structure ServerComponentOption where
  maxPacketBodyLength : Nat := 2048
  networkIOThreadCount : Nat := 2
  maxSessionCount : Nat := 150
  packetCode : UInt8 := 0
  packetEncodeKey : UInt8 := 0
  deriving DecidableEq, Repr

/-- `ValidateOption`, the same for both servers. -/
def validateOption (option : ServerComponentOption) : Bool :=
  !decide (8 < option.networkIOThreadCount)

/-- A little-endian `uint16_t` at `offset`, over zero-initialised storage. -/
def readUInt16 (bytes : List UInt8) (offset : Nat) : Nat :=
  (bytes.getD offset 0).toNat + 256 * (bytes.getD (offset + 1) 0).toNat

/-- Sender and receiver agree on the byte order of a 16-bit length. -/
theorem readUInt16_scalarBytes {value : Nat} (h : value < 65536) (front back : List UInt8) :
    readUInt16 (front ++ Packet.scalarBytes 2 value ++ back) front.length = value := by
  have hBytes : Packet.scalarBytes 2 value =
      [UInt8.ofNat value, UInt8.ofNat (value / 256)] := rfl
  have hLow : (UInt8.ofNat value).toNat = value % 256 := by simp
  have hHigh : (UInt8.ofNat (value / 256)).toNat = value / 256 % 256 := by simp
  rw [readUInt16, hBytes, List.append_assoc]
  simp only [List.getD_eq_getElem?_getD, List.getElem?_append_right (Nat.le_refl front.length),
    List.getElem?_append_right (Nat.le_add_right front.length 1), Nat.sub_self,
    Nat.add_sub_cancel_left, List.cons_append, List.getElem?_cons_zero, List.getElem?_cons_succ,
    Option.getD_some, hLow, hHigh]
  omega

end NfNetwork
