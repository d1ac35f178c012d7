import Mathlib.Data.Fintype.Sum
import Mathlib.Tactic.DeriveFintype
import NfNetwork.Machinery.ThreadPool
import NfNetwork.Machinery.Transition
import NfNetwork.Lan.Session

/-! The LAN server as a machine: one accept thread, any number of IO threads and of threads
that call `SendPacket` and `Disconnect`, over a pool of any size. The stack of unused indexes
is atomic. Every thread is a stack of frames, so that a handler may call the API from inside a
callback. -/
namespace NfNetwork.Lan

open Machinery

/-- The threads of a server with `ioThreads` IO threads and `callers` threads that call the
API. -/
inductive Thread (ioThreads callers : Nat) where
  | accept
  | io (i : Fin ioThreads)
  | caller (i : Fin callers)
deriving DecidableEq, Fintype

/-- A frame of a thread's stack, in a pool of `poolSize` sessions. An empty stack waits: in
`accept`, in `GetQueuedCompletionStatus`, or in user code. -/
inductive Frame (poolSize : Nat) where
  -- user code that a callback runs; it may call the API and then returns
  | handler
  | acceptDecide
  -- `GenUniqueSessionID`: `TryPop`, then the loop over `mSessionUIDAcc`
  | tryPop
  | nextUid (index : Fin poolSize)
  | checkUid (index : Fin poolSize) (uid : Nat)
  | acceptEnded
  | on (k : Fin poolSize) (pc : SlotPc)
deriving DecidableEq

/-- A call of the API. -/
inductive Purpose where
  | sendPacket (packet : Nat)
  | disconnect
deriving DecidableEq, Repr

/-- The first place in the called function. -/
def Purpose.entry (id : Nat) : Purpose → SlotPc
  | .sendPacket packet => .sendCheckId id packet
  | .disconnect => .disconnectCheckId id

/-- What decides a step where the code alone does not. -/
inductive Choice (poolSize : Nat) where
  | env (env : Env)
  | call (id : Nat) (purpose : Purpose)
  | completion (k : Fin poolSize) (op : OpKind × Nat) (outcome : Outcome)

/-- Everything shared, and the stacks. `history` records what the handler saw and the turning
points of the slots. -/
structure Server (ioThreads callers poolSize : Nat) where
  slots : Fin poolSize → Slot
  unusedSessionIndexes : List Nat
  sessionUidAcc : Nat
  connectedSessionCount : Int
  history : List (Fin poolSize × Event)
  threads : Thread ioThreads callers → List (Frame poolSize)

variable {ioThreads callers poolSize : Nat}

namespace Server

/-- `LanSessionManager::Init` and the threads at their start. -/
def start (ioThreads callers poolSize : Nat) : Server ioThreads callers poolSize where
  slots _ := ⟨.new, 0, []⟩
  unusedSessionIndexes := (List.range poolSize).reverse
  sessionUidAcc := 0
  connectedSessionCount := 0
  history := []
  threads _ := []

/-- The stack of one thread replaced. -/
def setThread (s : Server ioThreads callers poolSize) (t : Thread ioThreads callers)
    (stack : List (Frame poolSize)) : Server ioThreads callers poolSize :=
  { s with threads := Function.update s.threads t stack }

/-- The frames that a step at slot `k` leaves. -/
def effectFrames (k : Fin poolSize) (e : Effect) : List (Frame poolSize) :=
  (if e.callsHandler then [.handler] else []) ++ e.next.map (.on k)

/-- The state after thread `t`, at slot `k`, had the given effect. -/
def apply (s : Server ioThreads callers poolSize) (t : Thread ioThreads callers)
    (rest : List (Frame poolSize)) (k : Fin poolSize) (e : Effect) :
    Server ioThreads callers poolSize where
  slots := Function.update s.slots k e.slot
  unusedSessionIndexes := e.pushed.toList ++ s.unusedSessionIndexes
  sessionUidAcc := s.sessionUidAcc
  connectedSessionCount := s.connectedSessionCount + e.connected
  history := s.history ++ e.event.toList.map fun event => (k, event)
  threads := Function.update s.threads t (effectFrames k e ++ rest)

/-- A call of `SendPacket` or `Disconnect`. `FindSessionOrNull` asserts that the index of the
id is in the pool. -/
def call (s : Server ioThreads callers poolSize) (t : Thread ioThreads callers) (id : Nat)
    (purpose : Purpose) (rest : List (Frame poolSize)) : Option (Server ioThreads callers poolSize) :=
  if h : LanSession.sessionIndex id < poolSize then
    some (s.setThread t (.on ⟨_, h⟩ (purpose.entry id) :: rest))
  else none

/-- One step of a thread that waits. An IO thread reports to the handler that it is there. -/
def stepIdle (s : Server ioThreads callers poolSize) :
    Thread ioThreads callers → Choice poolSize → Option (Server ioThreads callers poolSize)
  | .accept, .env .ok => some (s.setThread .accept [.handler, .acceptDecide])
  | .accept, .env _ => some (s.setThread .accept [.acceptEnded])
  | .io i, .completion k op outcome =>
      if op ∈ (s.slots k).pending then
        some { s.setThread (.io i) [.on k (.completed op.1 outcome)] with
               slots := Function.update s.slots k
                 { s.slots k with pending := (s.slots k).pending.erase op } }
      else none
  | .io i, .env _ => some (s.setThread (.io i) [.handler])
  | .caller i, .call id purpose => s.call (.caller i) id purpose []
  | _, _ => none

/-- `TryPop`. On an empty stack the index keeps its initial value 0. -/
def popIndex (s : Server ioThreads callers poolSize) : Nat := s.unusedSessionIndexes.headD 0

/-- One step of the thread `t`, whose top frame and the frames below are given. -/
def stepFrame (s : Server ioThreads callers poolSize) (t : Thread ioThreads callers)
    (rest : List (Frame poolSize)) :
    Frame poolSize → Choice poolSize → Option (Server ioThreads callers poolSize)
  | .handler, .call id purpose => s.call t id purpose (.handler :: rest)
  | .handler, .env _ => some (s.setThread t rest)
  -- `OnConnectionRequested` has returned.
  | .acceptDecide, .env .ok => some (s.setThread t (.tryPop :: rest))
  | .acceptDecide, .env _ => some (s.setThread t rest)
  | .tryPop, .env _ =>
      if h : s.popIndex < poolSize then
        some { s.setThread t (.nextUid ⟨_, h⟩ :: rest) with
               unusedSessionIndexes := s.unusedSessionIndexes.tail
               history := s.history ++ [(⟨_, h⟩, .popped)] }
      else none
  | .nextUid index, .env _ =>
      let sessionUidAcc := (s.sessionUidAcc + 1) % 2 ^ 32
      some { s.setThread t (.checkUid index (sessionUidAcc % 2 ^ 48) :: rest) with
             sessionUidAcc := sessionUidAcc }
  | .checkUid index uid, .env _ =>
      if uid ≠ 0 ∧ uid ≠ LanSession.sessionUid (s.slots index).session.lanSessionId then
        let id := LanSession.genSessionId index uid
        if h : LanSession.sessionIndex id < poolSize then
          some (s.setThread t ((initSteps id).map (.on ⟨_, h⟩) ++ rest))
        else none
      else some (s.setThread t (.nextUid index :: rest))
  | .on k pc, .env env => do
      let e ← pc.step (s.slots k) env
      some (s.apply t rest k e)
  | _, _ => none

/-- One step of the machine: a thread and what decides its step. -/
def step (s : Server ioThreads callers poolSize) (a : Thread ioThreads callers × Choice poolSize) :
    Option (Server ioThreads callers poolSize) :=
  match s.threads a.1 with
  | [] => s.stepIdle a.1 a.2
  | frame :: rest => s.stepFrame a.1 rest frame a.2

/-- The runs of a fresh server whose steps all met the guard. -/
abbrev Reached
    (Guard : Server ioThreads callers poolSize → Thread ioThreads callers × Choice poolSize → Prop)
    (s : Server ioThreads callers poolSize) : Prop :=
  Reachable (Takes step) Guard (start ioThreads callers poolSize) s

/-- `n` steps of one thread in which the environment answers `ok`. -/
def goes (t : Thread ioThreads callers) (n : Nat) : List (Thread ioThreads callers × Choice poolSize) :=
  List.replicate n (t, .env .ok)

end Server

end NfNetwork.Lan
