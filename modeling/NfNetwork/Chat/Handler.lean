import NfNetwork.Chat.ChatUser
import NfNetwork.Machinery.Handler
import NfNetwork.ObjectPool.ObjectPool
import Mathlib.Data.List.AList

/-! What the chat's `EventHandler` keeps between jobs and how a handler of its job thread can
end. Calls of `mSender` are recorded; memory does not run out. -/
namespace NfNetwork.Chat

open Machinery ObjectPool

/-- The exceptions that `ThreadProcessJob` catches. -/
inductive Exn where
  | packetReaderException
  | logicError
  | invalidArgument
  deriving DecidableEq, Repr

/-- What ends the process, or leaves it undefined. -/
inductive Undefined where
  | outOfBounds
  | sectorOutOfBounds
  | eraseEnd
  | invalidParameter
  | nullPointer
  deriving DecidableEq, Repr

inductive Stop where
  | thrown (exn : Exn)
  | ended (undefined : Undefined)
  deriving DecidableEq, Repr

def dfSECTOR_X_MAX : Nat := 50
def dfSECTOR_Y_MAX : Nat := 50

/-- `sizeof(mMessageBuffer)`, 1024 of `wchar_t`. -/
def messageBufferSize : Nat := 2048

/-- A cell of `mSector`. -/
abbrev Cell : Type := Fin (dfSECTOR_X_MAX * dfSECTOR_Y_MAX)

structure ChatUserManager (Node : Type) where
  sessionUserMap : AList fun _ : Nat => Node
  accountUserMap : AList fun _ : Int64 => Node
  userPool : NfNetwork.ObjectPool Node

structure SectorManager (Node : Type) where
  sector : Cell → List Node

/-- `users` is the memory of the pool's blocks; `sent` and `disconnected` are the calls of
`mSender` so far, `allocated` those of `AllocSend`. -/
structure EventHandler (Node : Type) where
  messageBuffer : Bytes messageBufferSize
  userManager : ChatUserManager Node
  sectorManager : SectorManager Node
  users : Node → ChatUser
  allocated : Nat
  sent : List (Nat × Packet netLayout)
  disconnected : List Nat

/-- Where new blocks and send packets come from, and which calls of `mSender.SendPacket`, counted
from 0, find a send queue so long that `ReadySending` throws. -/
structure Env (Node : Type) where
  allocator : Allocator Node
  sendMemory : Nat → netLayout.Memory
  sendThrows : Nat → Bool

abbrev Handler (Node α : Type) : Type := EStateM Stop (EventHandler Node) α

variable {Node α : Type}

/-- A new `EventHandler`, over whatever its blocks hold. -/
def EventHandler.new (env : Env Node) (users : Node → ChatUser) : EventHandler Node where
  messageBuffer := ⟨List.replicate messageBufferSize 0, List.length_replicate⟩
  userManager := ⟨∅, ∅, .new env.allocator 1024⟩
  sectorManager := ⟨fun _ => []⟩
  users := users
  allocated := 0
  sent := []
  disconnected := []

namespace Handler

/-- A read of the received packet. -/
def ofRead : Except ReadStop α → Handler Node α
  | .ok a => pure a
  | .error .packetReaderException => throw (.thrown .packetReaderException)
  | .error .outOfBounds => throw (.ended .outOfBounds)

/-- A write to the packet being built. -/
def ofWrite : Option α → Handler Node α
  | some a => pure a
  | none => throw (.ended .outOfBounds)

/-- The packet of a job, where the source asserts that there is one. -/
def recvPacket (job : Job) : Handler Node (Packet netLayout) :=
  match job.recvPacket with
  | some recvPacket => pure recvPacket
  | none => throw (.ended .nullPointer)

def allocSend (env : Env Node) : Handler Node (Packet netLayout) :=
  modifyGet fun s => (.initial (env.sendMemory s.allocated), { s with allocated := s.allocated + 1 })

/-- `mSender.SendPacket`. The packet is in the session's queue before `SendPost` can throw. -/
def sendPacket (env : Env Node) (sessionId : Nat) (packet : Packet netLayout) : Handler Node PUnit := do
  let s ← get
  set { s with sent := s.sent ++ [(sessionId, packet)] }
  if env.sendThrows s.sent.length then throw (.thrown .invalidArgument) else pure ⟨⟩

/-- `mSender.Disconnect`. -/
def disconnect (sessionId : Nat) : Handler Node PUnit :=
  modify fun s => { s with disconnected := s.disconnected ++ [sessionId] }

variable {s : EventHandler Node} {returns : α → EventHandler Node → Prop}
  {throws : Stop → EventHandler Node → Prop}

@[simp] theorem ends_ofRead_ok {a : α} :
    Ends (ofRead (.ok a)) s returns throws ↔ returns a s := Iff.rfl

@[simp] theorem ends_ofRead_throws :
    Ends (ofRead (.error .packetReaderException)) s returns throws ↔
      throws (.thrown .packetReaderException) s := Iff.rfl

@[simp] theorem ends_ofRead_outOfBounds :
    Ends (ofRead (.error .outOfBounds)) s returns throws ↔ throws (.ended .outOfBounds) s := Iff.rfl

@[simp] theorem ends_ofWrite_some {a : α} :
    Ends (ofWrite (some a)) s returns throws ↔ returns a s := Iff.rfl

@[simp] theorem ends_ofWrite_none :
    Ends (ofWrite none) s returns throws ↔ throws (.ended .outOfBounds) s := Iff.rfl

@[simp] theorem ends_allocSend {env : Env Node} {returns : Packet netLayout → EventHandler Node → Prop} :
    Ends (allocSend env) s returns throws ↔
      returns (.initial (env.sendMemory s.allocated)) { s with allocated := s.allocated + 1 } :=
  Iff.rfl

/-- The call is made whether or not it returns. -/
theorem ends_sendPacket {env : Env Node} {sessionId : Nat} {packet : Packet netLayout}
    {returns : PUnit → EventHandler Node → Prop}
    (hReturns : env.sendThrows s.sent.length = false →
      returns ⟨⟩ { s with sent := s.sent ++ [(sessionId, packet)] })
    (hThrows : env.sendThrows s.sent.length = true →
      throws (.thrown .invalidArgument) { s with sent := s.sent ++ [(sessionId, packet)] }) :
    Ends (sendPacket env sessionId packet) s returns throws := by
  simp only [sendPacket, ends_bind, ends_get, ends_set]
  split
  · next hThrown => exact hThrows hThrown
  · next hReturned => exact hReturns (Bool.not_eq_true _ ▸ hReturned)

@[simp] theorem ends_disconnect {sessionId : Nat} {returns : PUnit → EventHandler Node → Prop} :
    Ends (disconnect sessionId) s returns throws ↔
      returns ⟨⟩ { s with disconnected := s.disconnected ++ [sessionId] } := Iff.rfl

end Handler

end NfNetwork.Chat
