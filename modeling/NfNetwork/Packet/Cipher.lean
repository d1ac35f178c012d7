import Mathlib.Data.LawfulXor.Basic
import Mathlib.Data.List.Basic
import Mathlib.Tactic.Common

/-! The chained byte cipher and the checksum of `nf/network/packet/Packet.cpp`.
All arithmetic is on `uint8_t`, so both counters wrap after 256 bytes. -/
namespace NfNetwork

/-- The loop of `PacketEncode`, from the current `accK`, `accRK`, `P` and `E`. -/
def encodeLoop (accK accRK P E : UInt8) : List UInt8 → List UInt8
  | [] => []
  | byte :: bytes =>
      let P := (P + (accRK + 1)) ^^^ byte
      let E := (E + (accK + 1)) ^^^ P
      E :: encodeLoop (accK + 1) (accRK + 1) P E bytes

def packetEncode (key randKey : UInt8) (bytes : List UInt8) : List UInt8 :=
  encodeLoop key randKey 0 0 bytes

/-- The loop of `PacketDecode`, from the current `accK`, `accRK`, `prevE` and
`prevP`. -/
def decodeLoop (accK accRK prevE prevP : UInt8) : List UInt8 → List UInt8
  | [] => []
  | currE :: bytes =>
      let currP := (prevE + (accK + 1)) ^^^ currE
      ((prevP + (accRK + 1)) ^^^ currP) :: decodeLoop (accK + 1) (accRK + 1) currE currP bytes

def packetDecode (key randKey : UInt8) (bytes : List UInt8) : List UInt8 :=
  decodeLoop key randKey 0 0 bytes

/-- `CalculateCheckSum`: the sum is kept in 64 bits and reduced once. -/
def calculateCheckSum (bytes : List UInt8) : UInt8 :=
  (bytes.foldl (fun checksum byte => checksum + byte.toUInt64) (0 : UInt64) % 256).toUInt8

@[simp] theorem encodeLoop_length (accK accRK P E : UInt8) (bytes : List UInt8) :
    (encodeLoop accK accRK P E bytes).length = bytes.length := by
  induction bytes generalizing accK accRK P E with
  | nil => rfl
  | cons byte bytes ih => simp [encodeLoop, ih]

@[simp] theorem packetEncode_length (key randKey : UInt8) (bytes : List UInt8) :
    (packetEncode key randKey bytes).length = bytes.length := encodeLoop_length ..

@[simp] theorem decodeLoop_length (accK accRK prevE prevP : UInt8) (bytes : List UInt8) :
    (decodeLoop accK accRK prevE prevP bytes).length = bytes.length := by
  induction bytes generalizing accK accRK prevE prevP with
  | nil => rfl
  | cons byte bytes ih => simp [decodeLoop, ih]

@[simp] theorem packetDecode_length (key randKey : UInt8) (bytes : List UInt8) :
    (packetDecode key randKey bytes).length = bytes.length := decodeLoop_length ..

/-- The decoder, started in the encoder's state, recovers the plain bytes. Its
`prevE` and `prevP` retrace the encoder's `E` and `P`. -/
theorem decodeLoop_encodeLoop (accK accRK P E : UInt8) (bytes : List UInt8) :
    decodeLoop accK accRK E P (encodeLoop accK accRK P E bytes) = bytes := by
  induction bytes generalizing accK accRK P E with
  | nil => rfl
  | cons byte bytes ih => simp [encodeLoop, decodeLoop, ih]

@[simp] theorem packetDecode_packetEncode (key randKey : UInt8) (bytes : List UInt8) :
    packetDecode key randKey (packetEncode key randKey bytes) = bytes :=
  decodeLoop_encodeLoop ..

/-- The encoder, started in the decoder's state, recovers the cipher bytes. -/
theorem encodeLoop_decodeLoop (accK accRK prevE prevP : UInt8) (bytes : List UInt8) :
    encodeLoop accK accRK prevP prevE (decodeLoop accK accRK prevE prevP bytes) = bytes := by
  induction bytes generalizing accK accRK prevE prevP with
  | nil => rfl
  | cons byte bytes ih => simp [encodeLoop, decodeLoop, ih]

@[simp] theorem packetEncode_packetDecode (key randKey : UInt8) (bytes : List UInt8) :
    packetEncode key randKey (packetDecode key randKey bytes) = bytes :=
  encodeLoop_decodeLoop ..

/-- The two loops undo each other, in both orders and at any length. -/
theorem packet_codec_inverse (key randKey : UInt8) (bytes : List UInt8) :
    packetDecode key randKey (packetEncode key randKey bytes) = bytes ∧
      packetEncode key randKey (packetDecode key randKey bytes) = bytes :=
  ⟨packetDecode_packetEncode key randKey bytes, packetEncode_packetDecode key randKey bytes⟩

end NfNetwork
