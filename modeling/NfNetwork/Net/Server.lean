import Mathlib.Data.Fintype.Sum
import Mathlib.Tactic.DeriveFintype
import NfNetwork.Machinery.ThreadPool
import NfNetwork.Machinery.Transition
import NfNetwork.Net.Session

/-! The NET server as a machine: one accept thread, any number of IO threads and
of threads that call `SendPacket` and `Disconnect`, over a pool of any size.
Every thread is a stack of frames, so that a handler may call the API from
inside a callback. -/
namespace NfNetwork.Net

open Machinery

/-- The threads of a server with `ioThreads` IO threads and `callers` threads
that call the API. -/
inductive Thread (ioThreads callers : Nat) where
  | accept
  | io (i : Fin ioThreads)
  | caller (i : Fin callers)
  deriving DecidableEq, Fintype

/-- A frame of a thread's stack, in a pool of `poolSize` sessions. An empty stack
waits: in `accept`, in `GetQueuedCompletionStatus`, or in user code. -/
inductive Frame (poolSize : Nat) where
  -- user code that a callback runs; it may call the API and then returns
  | handler
  | acceptDecide
  | acceptPop
  | acceptEnded
  | on (k : Fin poolSize) (pc : SlotPc)
  deriving DecidableEq

/-- What decides a step where the code alone does not. -/
inductive Choice (poolSize : Nat) where
  | env (env : Env)
  | call (id : Nat) (purpose : Purpose)
  | completion (k : Fin poolSize) (kind : OpKind) (outcome : Outcome)

/-- Everything shared, and the stacks. `history` and `refCount` record what the
handler saw and the packets' references. -/
structure Server (ioThreads callers poolSize : Nat) where
  slots : Fin poolSize → Slot
  unusedSession : List (Fin poolSize)
  connectedSessionCount : Int
  refCount : Nat → Int
  history : List (Fin poolSize × Event)
  threads : Thread ioThreads callers → List (Frame poolSize)

variable {ioThreads callers poolSize : Nat}

namespace Server

/-- `NetSessionManager::Init` and the threads at their start. -/
def start (ioThreads callers poolSize : Nat) : Server ioThreads callers poolSize where
  slots k := { session := .new k, pendingRecv := 0, pendingSend := 0 }
  unusedSession := (List.finRange poolSize).reverse
  connectedSessionCount := 0
  refCount := fun _ => 0
  history := []
  threads _ := []

/-- The stack of one thread replaced. -/
def setThread (s : Server ioThreads callers poolSize) (t : Thread ioThreads callers)
    (stack : List (Frame poolSize)) : Server ioThreads callers poolSize :=
  { s with threads := Function.update s.threads t stack }

/-- The state after thread `t`, at slot `k`, had the given effect. -/
def apply (s : Server ioThreads callers poolSize) (t : Thread ioThreads callers)
    (rest : List (Frame poolSize)) (k : Fin poolSize) (e : Effect) :
    Server ioThreads callers poolSize where
  slots := Function.update s.slots k e.slot
  unusedSession := if e.pushed then k :: s.unusedSession else s.unusedSession
  connectedSessionCount := s.connectedSessionCount + e.connected
  refCount := e.refs.foldl (fun refCount r => Function.update refCount r.1 (refCount r.1 + r.2))
    s.refCount
  history := s.history ++ e.event.toList.map fun event => (k, event)
  threads := Function.update s.threads t
    ((if e.callsHandler then [.handler] else []) ++ e.next.map (.on k) ++ rest)

/-- A call of `SendPacket` or `Disconnect`. `FindSessionOrNull` asserts that the
index of the id is in the pool. -/
def call (s : Server ioThreads callers poolSize) (t : Thread ioThreads callers)
    (id : Nat) (purpose : Purpose) (rest : List (Frame poolSize)) :
    Option (Server ioThreads callers poolSize) :=
  if h : NetSession.sessionIndexOf id < poolSize then
    some (s.setThread t (.on ⟨_, h⟩ (.findId id purpose) :: rest))
  else none

/-- One step of a thread that waits. -/
def stepIdle (s : Server ioThreads callers poolSize) :
    Thread ioThreads callers → Choice poolSize → Option (Server ioThreads callers poolSize)
  | .accept, .env .ok => some (s.setThread .accept [.handler, .acceptDecide])
  | .accept, .env _ => some (s.setThread .accept [.acceptEnded])
  | .io i, .completion k kind outcome => do
      let slot ← (s.slots k).takeCompletion kind
      some { s.setThread (.io i) [.on k (.completed kind outcome)] with
             slots := Function.update s.slots k slot }
  | .caller i, .call id purpose => s.call (.caller i) id purpose []
  | _, _ => none

/-- One step of the thread `t`, whose top frame and the frames below are given. -/
def stepFrame (s : Server ioThreads callers poolSize) (t : Thread ioThreads callers)
    (rest : List (Frame poolSize)) :
    Frame poolSize → Choice poolSize → Option (Server ioThreads callers poolSize)
  | .handler, .call id purpose => s.call t id purpose (.handler :: rest)
  | .handler, .env _ => some (s.setThread t rest)
  | .acceptDecide, .env .ok => some (s.setThread t (.acceptPop :: rest))
  | .acceptDecide, .env _ => some (s.setThread t rest)
  | .acceptPop, .env _ =>
      match s.unusedSession with
      | [] => some (s.setThread t rest)
      | k :: unusedSession =>
        some { s.setThread t (.on k (.init .checkReleased) :: rest) with
               unusedSession := unusedSession
               history := s.history ++ [(k, .popped)] }
  | .on k pc, .env env => do
      let e ← pc.step (s.slots k) env
      some (s.apply t rest k e)
  | _, _ => none

/-- One step of the machine: a thread and what decides its step. -/
def step (s : Server ioThreads callers poolSize)
    (a : Thread ioThreads callers × Choice poolSize) : Option (Server ioThreads callers poolSize) :=
  match s.threads a.1 with
  | [] => s.stepIdle a.1 a.2
  | frame :: rest => s.stepFrame a.1 rest frame a.2

/-- The runs of a fresh server whose steps all met the guard. -/
abbrev Reached
    (Guard : Server ioThreads callers poolSize → Thread ioThreads callers × Choice poolSize → Prop)
    (s : Server ioThreads callers poolSize) : Prop :=
  Reachable (Takes step) Guard (start ioThreads callers poolSize) s

/-- `n` steps of one thread in which the environment answers `ok`. -/
def goes (t : Thread ioThreads callers) (n : Nat) :
    List (Thread ioThreads callers × Choice poolSize) :=
  List.replicate n (t, .env .ok)

end Server

end NfNetwork.Net
