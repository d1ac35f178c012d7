import NfNetwork.Share.Define
import Mathlib.Algebra.GroupWithZero.Nat

/-! One slot of the LAN session pool: the fields of `LanSession` that more than one thread
touches, and the code of `LanSession`, `LanSessionManager` and `LanCore` that works on one
session, cut into steps. Every read and write of a shared field and every Interlocked call is
a step of its own; a place holds what its thread remembers in locals, and what is still to be
done after a call returns stands below it on the thread's stack. Asserts are compiled out, and
the reference counts of packets are left to the packet pool. -/
namespace NfNetwork.Lan

/-- The shared fields of `LanSession`, with `mReleaseInfo` and `mSendingInfo` unfolded. A
packet is a number; `packetBuffer` is read below `packetCount`. -/
structure LanSession where
  lanSessionId : Nat
  hasSocket : Bool
  isCloseSocket : Bool
  isReleased : Bool
  ioCount : Int
  sendQueue : List Nat
  isSending : Int
  packetCount : Nat
  packetBuffer : Nat → Nat

inductive OpKind where
  | recv
  | send
deriving DecidableEq, Repr

/-- A session object, how often it was initialised, and the overlapped operations that the
kernel still owes a completion for, each with the number of the `Init` before it. -/
structure Slot where
  session : LanSession
  incarnation : Nat
  pending : List (OpKind × Nat)

namespace LanSession

/-- `GenSessionID`: the index shifted into the upper 16 of 64 bits. -/
def genSessionId (index uid : Nat) : Nat := index * 2 ^ 48 % 2 ^ 64 + uid % 2 ^ 48

def sessionIndex (sessionId : Nat) : Nat := sessionId / 2 ^ 48

def sessionUid (sessionId : Nat) : Nat := sessionId % 2 ^ 48

/-- The state a constructor leaves, before any `Init`. -/
def new : LanSession where
  lanSessionId := 0
  hasSocket := false
  isCloseSocket := true
  isReleased := true
  ioCount := 0
  sendQueue := []
  isSending := 0
  packetCount := 0
  packetBuffer := fun _ => 0

/-- The compare-exchange of `TryRelease` on the whole of `mReleaseInfo` succeeds. -/
def releasable (session : LanSession) : Bool := !session.isReleased && session.ioCount == 0

end LanSession

/-- What a handler sees, and the turning points of a slot's life. `pushed` carries the index
that is given back. -/
inductive Event where
  | popped
  | initialised (id : Nat)
  | released
  | pushed (index : Nat)
  | onConnected (id : Nat)
  | onReceived (id : Nat)
  | onSent (id : Nat)
  | onDisconnected (id : Nat)
deriving DecidableEq, Repr

/-- How `GetQueuedCompletionStatus` reports an operation. -/
inductive Outcome where
  | failed
  | succeeded (transferred : Nat)
deriving DecidableEq, Repr

/-- `SendPost` with `ReadySending` inlined. -/
inductive SendPostPc where
  | readFlag
  | incrementFlag
  | decrementFlag
  | sampleSize
  | resetCount (queueSize : Nat)
  | dequeue (queueSize i : Nat)
  | store (queueSize i packet : Nat)
  | count (queueSize i : Nat)
  | increment
  | readSocket
  | wsaSend
deriving DecidableEq, Repr

inductive RecvPostPc where
  | increment
  | readSocket
  | wsaRecv
deriving DecidableEq, Repr

inductive FinishPc where
  | free (i : Nat)
  | resetCount
  | decrementFlag
deriving DecidableEq, Repr

/-- `LanSession::Init`. -/
inductive InitPc where
  | setId (id : Nat)
  | setSocket
  | clearQueue
  | resetIoCount
  | resetReleased
  | resetSending
  | openSocket
deriving DecidableEq, Repr

/-- Where a thread stands in the code that works on one session. -/
inductive SlotPc where
  -- `SendPacket` and `Disconnect` after `FindSessionOrNull`
  | sendCheckId (id packet : Nat)
  | sendCheckReleased (id packet : Nat)
  | sendIncrement (id packet : Nat)
  | sendRecheckId (id packet : Nat)
  | enqueueReleased (packet : Nat)
  | enqueue (packet : Nat)
  | disconnectCheckId (id : Nat)
  | sendPost (pc : SendPostPc)
  | recvPost (pc : RecvPostPc)
  -- `if (mSessionManager->DecrementIO(session) <= 0) TryRemoveSession(session)`
  | decrement
  -- `TryRemoveSession` of the core, then `TryReleaseSession` of the manager
  | readId
  | readIndex (id : Nat)
  | tryRelease (id index : Nat)
  -- `LanSession::Release`
  | cancelationIo
  | closeSocket
  | finishSending (pc : FinishPc)
  | drainCheck
  | drainDequeue
  | clearId
  | clearCount
  -- the rest of `TryReleaseSession` and of `TryRemoveSession`
  | push (index : Nat)
  | countDisconnected
  | notify (id : Nat)
  -- `NetworkIOThread` after a completion
  | completed (kind : OpKind) (outcome : Outcome)
  | recvLoop
  | receivedReadId
  | received (id : Nat)
  | sentReadId
  | sent (id : Nat)
  -- `NewSessionOrNull` and `CreateSessionOrNull` after `GenUniqueSessionID`
  | init (pc : InitPc)
  | countConnected
  | bind
  | connectedReadId
  | connected (id : Nat)
  -- an exception that leaves the code
  | threw
deriving DecidableEq, Repr

/-- The decisions that the environment takes inside a step. -/
inductive Env where
  | ok
  | fail
  | deliver
deriving DecidableEq, Repr

/-- What a step does: the slot afterwards, where the thread goes on (innermost call first),
and its effect on what the slots share. -/
structure Effect where
  slot : Slot
  next : List SlotPc
  event : Option Event := none
  callsHandler : Bool := false
  pushed : Option Nat := none
  connected : Int := 0

/-- The slot with its session replaced. -/
@[simp] def Slot.set (slot : Slot) (session : LanSession) : Slot := { slot with session := session }

/-- The kernel takes an operation. -/
def Slot.post (slot : Slot) (kind : OpKind) : Slot :=
  { slot with pending := (kind, slot.incarnation) :: slot.pending }

/-- The overlapped operations of the current incarnation. -/
def Slot.pendingNow (slot : Slot) : Nat := slot.pending.countP fun op => op.2 == slot.incarnation

/-- A step that changes nothing but its thread's place. -/
def goto (slot : Slot) (next : List SlotPc) : Option Effect := some { slot := slot, next := next }

/-- A step that replaces the session. -/
def update (slot : Slot) (session : LanSession) (next : List SlotPc) : Option Effect :=
  some { slot := slot.set session, next := next }

/-- The rest of `TryReleaseSession` after the compare-exchange, from `Release` on, and the
`OnDisconnected` after it. -/
def releaseSteps (id index : Nat) : List SlotPc :=
  [.cancelationIo, .finishSending (.free 0), .drainCheck, .push index, .countDisconnected, .notify id]

/-- `Init` and the rest of `CreateSessionOrNull`. -/
def initSteps (id : Nat) : List SlotPc :=
  [.init (.setId id), .init .setSocket, .init .clearQueue, .init .resetIoCount, .init .resetReleased,
    .init .resetSending, .init .openSocket, .countConnected, .bind]

section Steps

variable (slot : Slot) (env : Env)

def SendPostPc.step : SendPostPc → Option Effect
  | .readFlag => goto slot (if slot.session.isSending ≠ 0 then [] else [.sendPost .incrementFlag])
  | .incrementFlag =>
      let isSending := slot.session.isSending + 1
      update slot { slot.session with isSending := isSending }
        [.sendPost (if isSending ≠ 1 then .decrementFlag else .sampleSize)]
  | .decrementFlag => update slot { slot.session with isSending := slot.session.isSending - 1 } []
  | .sampleSize =>
      let queueSize := slot.session.sendQueue.length
      if maxPacketCountPerSend < queueSize then goto slot [.threw]
      else goto slot [.sendPost (if queueSize = 0 then .decrementFlag else .resetCount queueSize)]
  | .resetCount queueSize =>
      update slot { slot.session with packetCount := 0 } [.sendPost (.dequeue queueSize 0)]
  | .dequeue queueSize i =>
      if i < queueSize then
        match slot.session.sendQueue with
        | [] => goto slot [.sendPost .increment]
        | packet :: sendQueue =>
          update slot { slot.session with sendQueue := sendQueue } [.sendPost (.store queueSize i packet)]
      else goto slot [.sendPost .increment]
  | .store queueSize i packet =>
      update slot
        { slot.session with
          packetBuffer := Function.update slot.session.packetBuffer slot.session.packetCount packet }
        [.sendPost (.count queueSize i)]
  | .count queueSize i =>
      update slot { slot.session with packetCount := slot.session.packetCount + 1 }
        [.sendPost (.dequeue queueSize (i + 1))]
  | .increment =>
      update slot { slot.session with ioCount := slot.session.ioCount + 1 } [.sendPost .readSocket]
  -- `WSASend` on `INVALID_SOCKET` fails.
  | .readSocket => goto slot (if slot.session.hasSocket then [.sendPost .wsaSend] else [.decrement])
  | .wsaSend => match env with
      | .ok => some { slot := slot.post .send, next := [] }
      | _ => goto slot [.decrement]

/-- `RecvPost` on a queue that only its caller uses. -/
def RecvPostPc.step : RecvPostPc → Option Effect
  | .increment =>
      update slot { slot.session with ioCount := slot.session.ioCount + 1 } [.recvPost .readSocket]
  | .readSocket => goto slot (if slot.session.hasSocket then [.recvPost .wsaRecv] else [.decrement])
  | .wsaRecv => match env with
      | .ok => some { slot := slot.post .recv, next := [] }
      | _ => goto slot [.decrement]

def FinishPc.step : FinishPc → Option Effect
  -- Each pass gives `packetBuffer i` back to the packet pool.
  | .free i =>
      goto slot [.finishSending (if i < slot.session.packetCount then .free (i + 1) else .resetCount)]
  | .resetCount =>
      update slot { slot.session with packetCount := 0 } [.finishSending .decrementFlag]
  | .decrementFlag => update slot { slot.session with isSending := slot.session.isSending - 1 } []

def InitPc.step : InitPc → Option Effect
  | .setId id =>
      some { slot := { slot with
               session := { slot.session with lanSessionId := id }
               incarnation := slot.incarnation + 1 },
             next := [], event := some (.initialised id) }
  | .setSocket => update slot { slot.session with hasSocket := true } []
  | .clearQueue => update slot { slot.session with sendQueue := [] } []
  | .resetIoCount => update slot { slot.session with ioCount := 0 } []
  | .resetReleased => update slot { slot.session with isReleased := false } []
  | .resetSending => update slot { slot.session with isSending := 0 } []
  | .openSocket => update slot { slot.session with isCloseSocket := false } []

/-- One step of a thread that stands at the given place. -/
def SlotPc.step : SlotPc → Option Effect
  | .sendCheckId id packet =>
      goto slot (if slot.session.lanSessionId ≠ id then [] else [.sendCheckReleased id packet])
  | .sendCheckReleased id packet =>
      goto slot (if slot.session.isReleased then [] else [.sendIncrement id packet])
  | .sendIncrement id packet =>
      let ioCount := slot.session.ioCount + 1
      update slot { slot.session with ioCount := ioCount }
        (if ioCount = 1 then [.decrement] else [.sendRecheckId id packet, .decrement])
  | .sendRecheckId id packet =>
      goto slot (if slot.session.lanSessionId ≠ id then [] else [.enqueueReleased packet])
  | .enqueueReleased packet =>
      goto slot (if slot.session.isReleased then [] else [.enqueue packet])
  | .enqueue packet => match env with
      | .ok =>
        update slot { slot.session with sendQueue := slot.session.sendQueue ++ [packet] }
          [.sendPost .readFlag]
      | _ => goto slot []
  | .disconnectCheckId id =>
      goto slot (if slot.session.lanSessionId ≠ id then [] else [.readId])
  | .sendPost pc => pc.step slot env
  | .recvPost pc => pc.step slot env
  | .decrement =>
      let ioCount := slot.session.ioCount - 1
      update slot { slot.session with ioCount := ioCount } (if ioCount ≤ 0 then [.readId] else [])
  | .readId => goto slot [.readIndex slot.session.lanSessionId]
  | .readIndex id =>
      goto slot [.tryRelease id (LanSession.sessionIndex slot.session.lanSessionId)]
  | .tryRelease id index =>
      if slot.session.releasable then
        some { slot := slot.set { slot.session with isReleased := true },
               next := releaseSteps id index, event := some .released }
      else goto slot []
  | .cancelationIo =>
      if slot.session.isCloseSocket then goto slot []
      else update slot { slot.session with isCloseSocket := true } [.closeSocket]
  | .closeSocket => update slot { slot.session with hasSocket := false } []
  | .finishSending pc => pc.step slot
  | .drainCheck =>
      goto slot (if slot.session.sendQueue.isEmpty then [.clearId] else [.drainDequeue])
  | .drainDequeue => match slot.session.sendQueue with
      | [] => goto slot [.drainCheck]
      | _ :: sendQueue => update slot { slot.session with sendQueue := sendQueue } [.drainCheck]
  | .clearId => update slot { slot.session with lanSessionId := 0 } [.clearCount]
  | .clearCount => update slot { slot.session with packetCount := 0 } []
  -- `Push` has room: where the stack held more than `mMaxCapacity` indexes, `TryReleaseSession`
  -- would throw.
  | .push index =>
      some { slot := slot, next := [], event := some (.pushed index), pushed := some index }
  | .countDisconnected => some { slot := slot, next := [], connected := -1 }
  | .notify id =>
      some { slot := slot, next := [], event := some (.onDisconnected id), callsHandler := true }
  | .completed _ .failed => goto slot [.decrement]
  | .completed kind (.succeeded transferred) =>
      goto slot
        (if transferred = 0 then [.decrement]
          else match kind with
            | .recv => [.recvLoop, .decrement]
            | .send => [.finishSending (.free 0), .sentReadId, .sendPost .readFlag, .decrement])
  -- One pass of `NetworkRecvCompleted`: a packet, waiting for more, or closing.
  | .recvLoop => goto slot (match env with
      | .deliver => [.receivedReadId, .recvLoop]
      | .ok => [.recvPost .increment]
      | .fail => [.cancelationIo])
  | .receivedReadId => goto slot [.received slot.session.lanSessionId]
  | .received id =>
      some { slot := slot, next := [], event := some (.onReceived id), callsHandler := true }
  | .sentReadId => goto slot [.sent slot.session.lanSessionId]
  | .sent id =>
      some { slot := slot, next := [], event := some (.onSent id), callsHandler := true }
  | .init pc => pc.step slot
  | .countConnected => some { slot := slot, next := [], connected := 1 }
  -- `CreateIoCompletionPort`
  | .bind => goto slot (match env with
      | .ok => [.connectedReadId]
      | _ => [.readId])
  | .connectedReadId => goto slot [.connected slot.session.lanSessionId]
  | .connected id =>
      some { slot := slot, next := [.recvPost .increment], event := some (.onConnected id),
             callsHandler := true }
  | .threw => none

end Steps

end NfNetwork.Lan
