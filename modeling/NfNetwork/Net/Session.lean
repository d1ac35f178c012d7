import NfNetwork.Share.Define
import Mathlib.Algebra.GroupWithZero.Nat

/-! One slot of the session pool: the fields of `NetSession` that more than one
thread touches, and the code of `NetSession`, `NetSessionManager` and `NetCore`
that works on one session, cut into steps. Every read and write of a shared
field and every Interlocked call is a step of its own; a program counter holds
what its thread remembers in locals. -/
namespace NfNetwork.Net

/-- The shared fields of `NetSession`, with `mReleaseInfo` and `mSendingInfo`
unfolded. A packet is a number; `packetBuffer` is read below `packetCount`. -/
structure NetSession where
  sessionIndex : Nat
  isReleased : Bool
  ioCount : Int
  isCloseSocket : Bool
  hasSocket : Bool
  netSessionId : Nat
  prevUid : Nat
  sessionUidAcc : Nat
  sendQueue : List Nat
  isSending : Nat
  packetCount : Nat
  packetBuffer : Nat → Nat

/-- A session object and the overlapped operations that the kernel still owes a
completion for. -/
structure Slot where
  session : NetSession
  pendingRecv : Nat
  pendingSend : Nat

namespace NetSession

/-- `GenSessionID`: the index shifted into the upper 16 of 64 bits. -/
def genSessionId (index uid : Nat) : Nat := index * 2 ^ 48 % 2 ^ 64 + uid % 2 ^ 48

def sessionIndexOf (sessionId : Nat) : Nat := sessionId / 2 ^ 48

def sessionUidOf (sessionId : Nat) : Nat := sessionId % 2 ^ 48

/-- The state a constructor leaves, before any `Init`. -/
def new (index : Nat) : NetSession where
  sessionIndex := index
  isReleased := true
  ioCount := 0
  isCloseSocket := true
  hasSocket := false
  netSessionId := 0
  prevUid := 0
  sessionUidAcc := 0
  sendQueue := []
  isSending := 0
  packetCount := 0
  packetBuffer := fun _ => 0

/-- `InterlockedCompareExchange64` on `IsSendingAtomic`. -/
def exchangeSending (session : NetSession) (exchange comperand : Nat) : NetSession :=
  if session.isSending = comperand then { session with isSending := exchange } else session

section ExchangeSending

variable (session : NetSession) (exchange comperand : Nat)

@[simp] theorem exchangeSending_isReleased :
    (session.exchangeSending exchange comperand).isReleased = session.isReleased := by
  unfold exchangeSending
  split <;> rfl

@[simp] theorem exchangeSending_ioCount :
    (session.exchangeSending exchange comperand).ioCount = session.ioCount := by
  unfold exchangeSending
  split <;> rfl

@[simp] theorem exchangeSending_netSessionId :
    (session.exchangeSending exchange comperand).netSessionId = session.netSessionId := by
  unfold exchangeSending
  split <;> rfl

@[simp] theorem exchangeSending_packetCount :
    (session.exchangeSending exchange comperand).packetCount = session.packetCount := by
  unfold exchangeSending
  split <;> rfl

@[simp] theorem exchangeSending_packetBuffer :
    (session.exchangeSending exchange comperand).packetBuffer = session.packetBuffer := by
  unfold exchangeSending
  split <;> rfl

@[simp] theorem exchangeSending_sendQueue :
    (session.exchangeSending exchange comperand).sendQueue = session.sendQueue := by
  unfold exchangeSending
  split <;> rfl

end ExchangeSending

theorem genSessionId_ne_zero (index : Nat) {uid : Nat} (h : uid % 2 ^ 48 ≠ 0) :
    genSessionId index uid ≠ 0 :=
  Nat.ne_of_gt (Nat.add_pos_right _ (Nat.pos_of_ne_zero h))

end NetSession

/-- What a handler sees, and the turning points of a slot's life. `published`
carries the id that `Init` assigned, `bound` the one that was then bound. -/
inductive Event where
  | popped
  | published (id : Nat)
  | bound (id : Nat)
  | released
  | pushed
  | onConnected (id : Nat)
  | onReceived (id : Nat)
  | onSent (id : Nat)
  | onDisconnected (id : Nat)
  deriving DecidableEq, Repr

/-- What `AcquireSessionOrNull` was called for. -/
inductive Purpose where
  | sendPacket (packet : Nat)
  | disconnect
  deriving DecidableEq, Repr

inductive OpKind where
  | recv
  | send
  deriving DecidableEq, Repr

/-- How `GetQueuedCompletionStatus` reports an operation. A failure with
`ERROR_SEM_TIMEOUT` is the one that closes the session. -/
inductive Outcome where
  | failed (semTimeout : Bool)
  | succeeded (transferred : Nat)
  deriving DecidableEq, Repr

/-- Who called `SendPost`: `SendPacket` with the id it acquired, or the IO
thread. -/
inductive SendCaller where
  | sendPacket (id : Nat)
  | ioThread
  deriving DecidableEq, Repr

/-- Who called `RecvPost`. -/
inductive RecvCaller where
  | acceptThread
  | ioThread
  deriving DecidableEq, Repr

/-- Who called `FinishSending`: `Release`, with the id to report afterwards if
there is one, or the IO thread after a send. -/
inductive FinishCaller where
  | release (id : Option Nat)
  | ioThread
  deriving DecidableEq, Repr

/-- `SendPost` with `ReadySending` inlined. `batch` is the `SendingBuffer`. -/
inductive SendPostPc where
  | readySending
  | sampleSize
  | clearFlag
  | resetCount (queueSize : Nat)
  | dequeue (queueSize i : Nat) (batch : List Nat)
  | store (queueSize i : Nat) (batch : List Nat) (packet : Nat)
  | count (queueSize i : Nat) (batch : List Nat) (packet : Nat)
  | checkCount (batch : List Nat)
  | markPosted (batch : List Nat)
  | increment (batch : List Nat)
  | resetOverlapped (batch : List Nat)
  | socketClosed (batch : List Nat)
  | readSocket (batch : List Nat)
  | wsaSend (batch : List Nat)
  | threw
  deriving DecidableEq, Repr

inductive RecvPostPc where
  | checkFull
  | cancelFull
  | increment
  | resetOverlapped
  | socketClosed
  | readSocket
  | wsaRecv
  deriving DecidableEq, Repr

inductive FinishPc where
  | readCount
  | free (i packetCount : Nat)
  | resetCount
  | clearFlag
  deriving DecidableEq, Repr

/-- `NetSession::Release` and the rest of `NetSessionManager::TryReleaseSession`. -/
inductive ReleasePc where
  | close
  | closeSocket
  | prevUid
  | clearId
  | drainCheck
  | drainDequeue
  | push
  | countDisconnected
  deriving DecidableEq, Repr

/-- `NetSession::Init`. The fields only the session's owner reads are left out. -/
inductive InitPc where
  | checkReleased
  | readPrevUid
  | nextUid (oldSessionUid : Nat)
  | setSocket
  | clearQueue
  | resetCount
  | clearFlag
  | openSocket
  | publish
  deriving DecidableEq, Repr

/-- Where a thread stands in the code that works on one session. -/
inductive SlotPc where
  -- `FindSessionOrNull` and `AcquireSessionOrNull`
  | findId (id : Nat) (purpose : Purpose)
  | findClosed (id : Nat) (purpose : Purpose)
  | findReleased (id : Nat) (purpose : Purpose)
  | acquireIncrement (id : Nat) (purpose : Purpose)
  | acquireCheckId (id : Nat) (purpose : Purpose)
  | acquireCheckReleased (id : Nat) (purpose : Purpose)
  -- `SendPacket` up to `Enqueue`, and `Disconnect`
  | enqueueClosed (id packet : Nat)
  | enqueueReleased (id packet : Nat)
  | addRef (id packet : Nat)
  | enqueue (id packet : Nat)
  | disconnect (id : Nat)
  | sendPost (caller : SendCaller) (pc : SendPostPc)
  | returned (caller : SendCaller)
  | recvPost (caller : RecvCaller) (pc : RecvPostPc)
  -- `TryReleaseSession` of the core, then of the manager
  | decrement
  | readId
  | checkReleased (id : Option Nat)
  | tryRelease (id : Option Nat)
  | release (id : Option Nat) (pc : ReleasePc)
  | notify (id : Nat)
  | finishSending (caller : FinishCaller) (pc : FinishPc)
  -- `NetworkIOThread` after a completion
  | completed (kind : OpKind) (outcome : Outcome)
  | cancelTimedOut
  | checkClosed (kind : OpKind)
  | sentReadId
  | sent (id : Nat)
  | recvLoop
  | receivedReadId
  | received (id : Nat)
  | recvCancel
  -- `NewSessionOrNull` and `CreateSessionOrNull` after the pop
  | init (pc : InitPc)
  | countConnected
  | bind
  | connectedReadId
  | connected (id : Nat)
  | threw
  deriving DecidableEq, Repr

/-- The decisions that the environment takes inside a step. -/
inductive Env where
  | ok
  | fail
  | deliver
  deriving DecidableEq, Repr

/-- What a step does: the slot afterwards, where the thread goes on (innermost
call first), and its effect on what the slots share. -/
structure Effect where
  slot : Slot
  next : List SlotPc
  event : Option Event := none
  callsHandler : Bool := false
  pushed : Bool := false
  connected : Int := 0
  refs : List (Nat × Int) := []

/-- The slot with its session replaced. -/
@[simp] def Slot.set (slot : Slot) (session : NetSession) : Slot := { slot with session := session }

/-- An operation of the given kind leaves the completion port. -/
def Slot.takeCompletion (slot : Slot) : OpKind → Option Slot
  | .recv => if 0 < slot.pendingRecv then
      some { slot with pendingRecv := slot.pendingRecv - 1 } else none
  | .send => if 0 < slot.pendingSend then
      some { slot with pendingSend := slot.pendingSend - 1 } else none

/-- A step that changes nothing but its thread's place. -/
def goto (slot : Slot) (next : List SlotPc) : Option Effect := some { slot := slot, next := next }

/-- A step that replaces the session. -/
def update (slot : Slot) (session : NetSession) (next : List SlotPc) : Option Effect :=
  some { slot := slot.set session, next := next }

/-- Where a successful `AcquireSessionOrNull` returns to. -/
def Purpose.acquired (id : Nat) : Purpose → SlotPc
  | .sendPacket packet => .enqueueClosed id packet
  | .disconnect => .disconnect id

/-- What follows `RecvPost`: the accept thread is done with the session, the IO
thread still calls `TryReleaseSession`. -/
def RecvCaller.returned : RecvCaller → List SlotPc
  | .acceptThread => []
  | .ioThread => [.returned .ioThread]

section Steps

variable (slot : Slot) (env : Env)

def SendPostPc.step (caller : SendCaller) : SendPostPc → Option Effect
  | .readySending =>
      if slot.session.isSending = 0 then
        update slot { slot.session with isSending := 1 } [.sendPost caller .sampleSize]
      else goto slot [.returned caller]
  | .sampleSize =>
      let queueSize := slot.session.sendQueue.length
      if maxPacketCountPerSend < queueSize then goto slot [.sendPost caller .threw]
      else if queueSize = 0 then goto slot [.sendPost caller .clearFlag]
      else goto slot [.sendPost caller (.resetCount queueSize)]
  | .clearFlag => update slot (slot.session.exchangeSending 0 1) [.returned caller]
  | .resetCount queueSize =>
      update slot { slot.session with packetCount := 0 } [.sendPost caller (.dequeue queueSize 0 [])]
  | .dequeue queueSize i batch =>
      if i < queueSize then
        match slot.session.sendQueue with
        | [] => goto slot [.sendPost caller (.checkCount batch)]
        | packet :: sendQueue =>
          update slot { slot.session with sendQueue := sendQueue }
            [.sendPost caller (.store queueSize i batch packet)]
      else goto slot [.sendPost caller (.checkCount batch)]
  | .store queueSize i batch packet =>
      update slot { slot.session with
          packetBuffer := fun j => if j = slot.session.packetCount then packet
            else slot.session.packetBuffer j }
        [.sendPost caller (.count queueSize i batch packet)]
  | .count queueSize i batch packet =>
      update slot { slot.session with packetCount := slot.session.packetCount + 1 }
        [.sendPost caller (.dequeue queueSize (i + 1) (batch ++ [packet]))]
  | .checkCount batch =>
      if slot.session.packetCount = 0 then goto slot [.sendPost caller .clearFlag]
      else goto slot [.sendPost caller (.markPosted batch)]
  | .markPosted batch =>
      update slot (slot.session.exchangeSending 2 1) [.sendPost caller (.increment batch)]
  | .increment batch =>
      update slot { slot.session with ioCount := slot.session.ioCount + 1 }
        [.sendPost caller (.resetOverlapped batch)]
  | .resetOverlapped batch => goto slot [.sendPost caller (.socketClosed batch)]
  | .socketClosed batch =>
      if slot.session.isCloseSocket then goto slot [.decrement, .returned caller]
      else goto slot [.sendPost caller (.readSocket batch)]
  | .readSocket batch =>
      if slot.session.hasSocket then goto slot [.sendPost caller (.wsaSend batch)]
      else goto slot [.decrement, .returned caller]
  | .wsaSend _ =>
      match env with
      | .ok => goto { slot with pendingSend := slot.pendingSend + 1 } [.returned caller]
      | _ => goto slot [.decrement, .returned caller]
  | .threw => none

def RecvPostPc.step (caller : RecvCaller) : RecvPostPc → Option Effect
  | .checkFull =>
      match env with
      | .ok => goto slot [.recvPost caller .increment]
      | _ => goto slot [.recvPost caller .cancelFull]
  | .cancelFull => update slot { slot.session with isCloseSocket := true } caller.returned
  | .increment =>
      update slot { slot.session with ioCount := slot.session.ioCount + 1 }
        [.recvPost caller .resetOverlapped]
  | .resetOverlapped => goto slot [.recvPost caller .socketClosed]
  | .socketClosed =>
      if slot.session.isCloseSocket then goto slot (.decrement :: caller.returned)
      else goto slot [.recvPost caller .readSocket]
  | .readSocket =>
      if slot.session.hasSocket then goto slot [.recvPost caller .wsaRecv]
      else goto slot (.decrement :: caller.returned)
  | .wsaRecv =>
      match env with
      | .ok => goto { slot with pendingRecv := slot.pendingRecv + 1 } caller.returned
      | _ => goto slot (.decrement :: caller.returned)

def FinishPc.step (caller : FinishCaller) : FinishPc → Option Effect
  | .readCount => goto slot [.finishSending caller (.free 0 slot.session.packetCount)]
  | .free i packetCount =>
      if i < slot.session.packetCount then
        some { slot := slot, next := [.finishSending caller (.free (i + 1) packetCount)],
               refs := [(slot.session.packetBuffer i, -1)] }
      else goto slot [.finishSending caller .resetCount]
  | .resetCount =>
      update slot { slot.session with packetCount := 0 } [.finishSending caller .clearFlag]
  | .clearFlag =>
      update slot (slot.session.exchangeSending 0 2)
        (match caller with
          | .release id => [.release id .push]
          | .ioThread => [.sentReadId])

def ReleasePc.step (id : Option Nat) : ReleasePc → Option Effect
  | .close => update slot { slot.session with isCloseSocket := true } [.release id .closeSocket]
  | .closeSocket => update slot { slot.session with hasSocket := false } [.release id .prevUid]
  | .prevUid =>
      update slot
        { slot.session with prevUid := NetSession.sessionUidOf slot.session.netSessionId }
        [.release id .clearId]
  | .clearId => update slot { slot.session with netSessionId := 0 } [.release id .drainCheck]
  | .drainCheck =>
      if slot.session.sendQueue.isEmpty then goto slot [.finishSending (.release id) .readCount]
      else goto slot [.release id .drainDequeue]
  | .drainDequeue =>
      match slot.session.sendQueue with
      | [] => goto slot [.release id .drainCheck]
      | packet :: sendQueue =>
        some { slot := slot.set { slot.session with sendQueue := sendQueue },
               next := [.release id .drainCheck], refs := [(packet, -1)] }
  | .push =>
      some { slot := slot, next := [.release id .countDisconnected], event := some .pushed,
             pushed := true }
  | .countDisconnected =>
      some { slot := slot, next := id.toList.map .notify, connected := -1 }

def InitPc.step : InitPc → Option Effect
  | .checkReleased =>
      if slot.session.isReleased then goto slot [.init .readPrevUid] else goto slot [.threw]
  | .readPrevUid => goto slot [.init (.nextUid slot.session.prevUid)]
  | .nextUid oldSessionUid =>
      -- Nobody else reads `mSessionUIDAcc`; the write of the id is the shared access.
      let sessionUidAcc := slot.session.sessionUidAcc + 1
      let newSessionUid := sessionUidAcc % 2 ^ 48
      if newSessionUid ≠ 0 ∧ newSessionUid ≠ oldSessionUid then
        update slot
          { slot.session with
            sessionUidAcc := sessionUidAcc
            netSessionId := NetSession.genSessionId slot.session.sessionIndex newSessionUid }
          [.init .setSocket]
      else
        update slot { slot.session with sessionUidAcc := sessionUidAcc }
          [.init (.nextUid oldSessionUid)]
  | .setSocket => update slot { slot.session with hasSocket := true } [.init .clearQueue]
  | .clearQueue => update slot { slot.session with sendQueue := [] } [.init .resetCount]
  | .resetCount => update slot { slot.session with packetCount := 0 } [.init .clearFlag]
  | .clearFlag => update slot { slot.session with isSending := 0 } [.init .openSocket]
  | .openSocket => update slot { slot.session with isCloseSocket := false } [.init .publish]
  | .publish =>
      some { slot := slot.set { slot.session with isReleased := false },
             next := [.countConnected],
             event := some (.published slot.session.netSessionId) }

/-- One step of a thread that stands at the given place. -/
def SlotPc.step : SlotPc → Option Effect
  | .findId id purpose =>
      goto slot (if slot.session.netSessionId ≠ id then [] else [.findClosed id purpose])
  | .findClosed id purpose =>
      goto slot (if slot.session.isCloseSocket then [] else [.findReleased id purpose])
  | .findReleased id purpose =>
      goto slot (if slot.session.isReleased then [] else [.acquireIncrement id purpose])
  | .acquireIncrement id purpose =>
      let ioCount := slot.session.ioCount + 1
      update slot { slot.session with ioCount := ioCount }
        (if ioCount = 1 then [.decrement] else [.acquireCheckId id purpose])
  | .acquireCheckId id purpose =>
      goto slot
        (if slot.session.netSessionId ≠ id then [.decrement] else [.acquireCheckReleased id purpose])
  | .acquireCheckReleased id purpose =>
      goto slot (if slot.session.isReleased then [.decrement] else [purpose.acquired id])
  | .enqueueClosed id packet =>
      goto slot
        (if slot.session.isCloseSocket then [.enqueueReleased id packet] else [.addRef id packet])
  | .enqueueReleased id packet =>
      goto slot
        (if slot.session.isReleased then [.returned (.sendPacket id)] else [.addRef id packet])
  | .addRef id packet => some { slot := slot, next := [.enqueue id packet], refs := [(packet, 1)] }
  | .enqueue id packet =>
      update slot { slot.session with sendQueue := slot.session.sendQueue ++ [packet] }
        [.sendPost (.sendPacket id) .readySending]
  | .disconnect _ => update slot { slot.session with isCloseSocket := true } [.decrement]
  | .sendPost caller pc => pc.step slot env caller
  | .returned _ => goto slot [.decrement]
  | .recvPost caller pc => pc.step slot env caller
  | .decrement =>
      let ioCount := slot.session.ioCount - 1
      update slot { slot.session with ioCount := ioCount }
        (if ioCount < 0 then [.threw] else if ioCount ≠ 0 then [] else [.readId])
  | .readId => goto slot [.checkReleased (some slot.session.netSessionId)]
  | .checkReleased id => goto slot (if slot.session.isReleased then [] else [.tryRelease id])
  | .tryRelease id =>
      if slot.session.isReleased = false ∧ slot.session.ioCount = 0 then
        some { slot := slot.set { slot.session with isReleased := true },
               next := [.release id .close], event := some .released }
      else goto slot []
  | .release id pc => pc.step slot id
  | .notify id =>
      some { slot := slot, next := [], event := some (.onDisconnected id), callsHandler := true }
  | .finishSending caller pc => pc.step slot caller
  | .completed _ (.failed semTimeout) =>
      goto slot
        (if slot.session.isReleased then [.decrement]
          else if semTimeout then [.cancelTimedOut] else [.decrement])
  | .completed kind (.succeeded transferred) =>
      -- The released branch continues without giving its count back.
      goto slot
        (if slot.session.isReleased then []
          else if transferred = 0 then [.decrement] else [.checkClosed kind])
  | .cancelTimedOut => update slot { slot.session with isCloseSocket := true } [.decrement]
  | .checkClosed kind =>
      goto slot
        (if slot.session.isCloseSocket then [.decrement]
          else match kind with
            | .send => [.finishSending .ioThread .readCount]
            | .recv => [.recvLoop])
  | .sentReadId => goto slot [.sent slot.session.netSessionId]
  | .sent id =>
      some { slot := slot, next := [.sendPost .ioThread .readySending],
             event := some (.onSent id), callsHandler := true }
  | .recvLoop =>
      -- One pass of `NetworkRecvCompleted`: a packet, waiting for more, or closing.
      goto slot
        (match env with
          | .deliver => [.receivedReadId]
          | .ok => [.recvPost .ioThread .checkFull]
          | .fail => [.recvCancel])
  | .receivedReadId => goto slot [.received slot.session.netSessionId]
  | .received id =>
      some { slot := slot, next := [.recvLoop], event := some (.onReceived id),
             callsHandler := true }
  | .recvCancel => update slot { slot.session with isCloseSocket := true } [.decrement]
  | .init pc => pc.step slot
  | .countConnected => some { slot := slot, next := [.bind], connected := 1 }
  | .bind =>
      match env with
      | .ok =>
        some { slot := slot, next := [.connectedReadId],
               event := some (.bound slot.session.netSessionId) }
      | _ => goto slot [.checkReleased none]
  | .connectedReadId => goto slot [.connected slot.session.netSessionId]
  | .connected id =>
      some { slot := slot, next := [.recvPost .acceptThread .checkFull],
             event := some (.onConnected id), callsHandler := true }
  | .threw => none

end Steps

end NfNetwork.Net
