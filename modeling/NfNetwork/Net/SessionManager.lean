import NfNetwork.Collections.LockFreeStack
import NfNetwork.Net.Session
import Mathlib.Logic.Embedding.Basic

/-! `NetSessionManager` over its lock-free stack. One thread accepts; any thread
releases. The code of the session is that of `SlotPc`, the pop and the push are the steps
of `mUnusedSession`. -/
namespace NfNetwork.Net

open Machinery Collections

/-- Where a thread is in the manager's code. `threw` is the `logic_error` of
`TryReleaseSession`, `outOfMemory` a `std::bad_alloc` that leaves `Push`. -/
inductive ManagerPc (Node : Type) (poolSize : Nat) where
  | idle
  | unused (pc : StackPc Node (Fin poolSize))
  | on (k : Fin poolSize) (pc : SlotPc)
  | outOfMemory (k : Fin poolSize)
  | threw
deriving DecidableEq

variable {Thread Node : Type} {poolSize : Nat}

namespace ManagerPc

/-- The place in the code of `mUnusedSession`. -/
def stackPc : ManagerPc Node poolSize → StackPc Node (Fin poolSize)
  | .unused pc => pc
  | _ => .idle

/-- After a step of `mUnusedSession`: what `NewSessionOrNull` and `TryReleaseSession` do
with its result. -/
def resume : StackPc Node (Fin poolSize) → Option (StackMark (Fin poolSize)) → ManagerPc Node poolSize
  | .idle, some (.popped session) => .on session (.init .checkReleased)
  | .idle, some .empty => .idle
  | .idle, some (.pushed session) => .on session (.release none .countDisconnected)
  | .idle, some (.full _) => .threw
  | .idle, some (.threw session) => .outOfMemory session
  | pc, _ => .unused pc

/-- After a step of the session's code. `NewSessionOrNull` returns before the session is
bound. -/
def follow (k : Fin poolSize) : List SlotPc → ManagerPc Node poolSize
  | [] | .bind :: _ => .idle
  | pc :: _ => .on k pc

theorem resume_stackPc (pc : StackPc Node (Fin poolSize)) (mark : Option (StackMark (Fin poolSize))) :
    (resume pc mark).stackPc = pc := by
  unfold resume
  split <;> rfl

end ManagerPc

structure NetSessionManager (Thread Node : Type) (poolSize : Nat) where
  mSessionPool : Fin poolSize → Slot
  mUnusedSession : LockFreeStack Node (Fin poolSize)
  mConnectedSessionCount : Int
  threads : Thread → ManagerPc Node poolSize
  history : List (Thread × StackMark (Fin poolSize))

/-- `others` is what the rest of the server does to a session. Only `Init` and
`TryRelease` write `IsReleasedAtomic`. -/
inductive ManagerAction (Thread Node : Type) (poolSize : Nat) where
  | newSessionOrNull
  | tryReleaseSession (t : Thread) (k : Fin poolSize)
  | run (t : Thread) (fresh : Option Node)
  | others (k : Fin poolSize) (slot : Slot)

variable [DecidableEq Node]

namespace NetSessionManager

/-- The pushes of `Init`, in the nodes that `Rent` returns for them. -/
def initPushes (accept : Thread) (node : Fin poolSize ↪ Node) (s : StackSystem Thread Node (Fin poolSize))
    (sessions : List (Fin poolSize)) : StackSystem Thread Node (Fin poolSize) :=
  sessions.foldl (fun s k => s.pushAlone accept (node k) k) s

/-- The manager after `Init`. -/
def start (accept : Thread) (node : Fin poolSize ↪ Node)
    (nodes : Node → StackNode Node (Fin poolSize)) : NetSessionManager Thread Node poolSize :=
  let unused := initPushes accept node (.start poolSize nodes) (List.finRange poolSize)
  ⟨fun k => ⟨.new k, 0, 0⟩, unused.stack, 0, fun _ => .idle, unused.history⟩

variable [DecidableEq Thread]

def goto (s : NetSessionManager Thread Node poolSize) (t : Thread) (pc : ManagerPc Node poolSize) :
    NetSessionManager Thread Node poolSize :=
  { s with threads := Function.update s.threads t pc }

/-- A thread has called or gone on in an operation of `mUnusedSession`. -/
def advance (s : NetSessionManager Thread Node poolSize) (t : Thread)
    (a : StackAdvance Node (Fin poolSize)) : NetSessionManager Thread Node poolSize :=
  { s with
    mUnusedSession := a.stack
    threads := Function.update s.threads t (.resume a.pc a.mark)
    history := s.history ++ a.mark.toList.map (Prod.mk t) }

/-- A thread has made a step in the code of a session. -/
def apply (s : NetSessionManager Thread Node poolSize) (t : Thread) (k : Fin poolSize) (e : Effect) :
    NetSessionManager Thread Node poolSize :=
  { s with
    mSessionPool := Function.update s.mSessionPool k e.slot
    mConnectedSessionCount := s.mConnectedSessionCount + e.connected
    threads := Function.update s.threads t (.follow k e.next) }

def step (accept : Thread) (s : NetSessionManager Thread Node poolSize) :
    ManagerAction Thread Node poolSize → Option (NetSessionManager Thread Node poolSize)
  | .newSessionOrNull => match s.threads accept with
    | .idle => some (s.advance accept ⟨s.mUnusedSession, .tryPop .decrementUsedSize, some .callTryPop⟩)
    | _ => none
  | .tryReleaseSession t k => match s.threads t with
    | .idle => some (s.goto t (.on k (.checkReleased none)))
    | _ => none
  | .run t fresh => match s.threads t with
    | .unused pc => (pc.step s.mUnusedSession fresh).map (s.advance t)
    | .on k (.release none .push) =>
        some (s.advance t ⟨s.mUnusedSession, .push k .checkCapacity, some (.callPush k)⟩)
    | .on k pc => (pc.step (s.mSessionPool k) .ok).map (s.apply t k)
    | _ => none
  | .others k slot =>
      if slot.session.isReleased = (s.mSessionPool k).session.isReleased then
        some { s with mSessionPool := Function.update s.mSessionPool k slot }
      else none

/-- No `Push` compares `mUsedSize` while it is negative. -/
def Unhurried (s : NetSessionManager Thread Node poolSize)
    (action : ManagerAction Thread Node poolSize) : Prop :=
  ∀ t fresh k, action = .run t fresh → s.threads t = .unused (.push k .checkCapacity) →
    0 ≤ s.mUnusedSession.mUsedSize

end NetSessionManager

end NfNetwork.Net
