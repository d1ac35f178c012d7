import NfNetwork.Machinery.Transition
import Mathlib.Data.Multiset.AddSub
import Mathlib.Logic.Function.Basic

/-! `LockFreeQueue` step by step, in the grain of `ObjectPoolLockFree`. The node pool
is what it promises: `Rent` returns a node that is not in use, with the contents it
was returned with, or throws. -/
namespace NfNetwork.Collections

open Machinery

structure QueueNode (Node Value : Type) where
  Next : Option Node
  Data : Value

structure Indexer (Node : Type) where
  UID : UInt64
  DummyNode : Option Node
deriving DecidableEq

/-- The queue, the memory of its nodes, and the nodes that `mPool` has handed out. -/
structure LockFreeQueue (Node Value : Type) where
  mHead : Indexer Node
  mTail : Indexer Node
  mUsedSize : Int
  nodes : Node → QueueNode Node Value
  rented : Multiset Node

/-- Where a thread is in `Enqueue`. -/
inductive EnqueuePc (Node : Type) where
  | rent
  | storeData (newNode : Node)
  | storeNext (newNode : Node)
  | loadTailNode (newNode : Node)
  | loadTailUID (newNode : Node) (node : Option Node)
  | loadNext (newNode : Node) (snapshotTail : Indexer Node)
  | moveTail (newNode : Node) (snapshotTail : Indexer Node) (snapshotTailNodeNext : Node)
  | reloadTailNode (newNode : Node) (snapshotTail : Indexer Node)
  | link (newNode : Node) (snapshotTail : Indexer Node) (tailNode : Option Node)
  | swingTail (newNode : Node) (snapshotTail : Indexer Node)
  | incrementUsedSize
deriving DecidableEq

/-- Where a thread is in `TryDequeue`. -/
inductive DequeuePc (Node Value : Type) where
  | decrementUsedSize
  | incrementUsedSize
  | loadHeadNode
  | loadHeadUID (node : Option Node)
  | loadTailNode (snapshotHead : Indexer Node)
  | loadTailUID (snapshotHead : Indexer Node) (node : Option Node)
  | loadHeadNext (snapshotHead snapshotTail : Indexer Node)
  | loadTailNext (snapshotHead snapshotTail : Indexer Node) (nextDummyNode : Option Node)
  | moveTail (snapshotHead snapshotTail : Indexer Node) (nextDummyNode snapshotTailNodeNext : Node)
  | reloadTailNode (snapshotHead : Indexer Node) (nextDummyNode : Node)
  | reloadTailNext (snapshotHead : Indexer Node) (nextDummyNode : Node) (tailNode : Option Node)
  | loadData (snapshotHead : Indexer Node) (nextDummyNode : Node)
  | moveHead (snapshotHead : Indexer Node) (nextDummyNode : Node) (outputData : Value)
  | giveBack (dummyNode : Node) (outputData : Value)
  | leave (outputData : Value)
deriving DecidableEq

/-- `crashed` stands for a null pointer dereferenced. -/
inductive QueuePc (Node Value : Type) where
  | idle
  | enqueue (inputData : Value) (pc : EnqueuePc Node)
  | tryDequeue (pc : DequeuePc Node Value)
  | crashed
deriving DecidableEq

/-- The calls of an operation and what comes of them. -/
inductive QueueMark (Value : Type) where
  | callEnqueue (inputData : Value)
  | enqueued (inputData : Value)
  | threw (inputData : Value)
  | callTryDequeue
  | dequeued (outputData : Value)
  | empty
deriving DecidableEq

structure QueueAdvance (Node Value : Type) where
  queue : LockFreeQueue Node Value
  pc : QueuePc Node Value
  mark : Option (QueueMark Value)

variable {Thread Node Value : Type} [DecidableEq Node]

namespace LockFreeQueue

variable (queue : LockFreeQueue Node Value)

def next (n : Node) : Option Node := (queue.nodes n).Next

def data (n : Node) : Value := (queue.nodes n).Data

def storeNext (n : Node) (link : Option Node) : LockFreeQueue Node Value :=
  { queue with nodes := Function.update queue.nodes n { queue.nodes n with Next := link } }

def storeData (n : Node) (value : Value) : LockFreeQueue Node Value :=
  { queue with nodes := Function.update queue.nodes n { queue.nodes n with Data := value } }

/-- `InterlockedCompareExchange128` on `mTail`. -/
def moveTail (node : Node) (comparand : Indexer Node) : LockFreeQueue Node Value :=
  if queue.mTail = comparand then { queue with mTail := ⟨comparand.UID + 1, some node⟩ } else queue

theorem storeNext_next (n : Node) (link : Option Node) :
    (queue.storeNext n link).next = Function.update queue.next n link := by
  funext m
  by_cases hSame : m = n
  · subst hSame
    simp [next, storeNext]
  · simp [next, storeNext, Function.update_of_ne hSame]

theorem storeNext_data (n : Node) (link : Option Node) :
    (queue.storeNext n link).data = queue.data := by
  funext m
  by_cases hSame : m = n
  · subst hSame
    simp [data, storeNext]
  · simp [data, storeNext, Function.update_of_ne hSame]

theorem storeData_next (n : Node) (value : Value) :
    (queue.storeData n value).next = queue.next := by
  funext m
  by_cases hSame : m = n
  · subst hSame
    simp [next, storeData]
  · simp [next, storeData, Function.update_of_ne hSame]

theorem storeData_data (n : Node) (value : Value) :
    (queue.storeData n value).data = Function.update queue.data n value := by
  funext m
  by_cases hSame : m = n
  · subst hSame
    simp [data, storeData]
  · simp [data, storeData, Function.update_of_ne hSame]

@[simp] theorem moveTail_mUsedSize (node : Node) (comparand : Indexer Node) :
    (queue.moveTail node comparand).mUsedSize = queue.mUsedSize := by
  rw [moveTail]
  split <;> rfl

end LockFreeQueue

section Steps

variable (queue : LockFreeQueue Node Value)

/-- Go on with a node unless the pointer is null. -/
def deref (pointer : Option Node) (k : Node → QueueAdvance Node Value) : QueueAdvance Node Value :=
  match pointer with
  | none => ⟨queue, .crashed, none⟩
  | some n => k n

def EnqueuePc.step (inputData : Value) (fresh : Option Node) :
    EnqueuePc Node → Option (QueueAdvance Node Value)
  | .rent => match fresh with
    -- `Rent` throws `std::bad_alloc`
    | none => some ⟨queue, .idle, some (.threw inputData)⟩
    | some n =>
        if n ∈ queue.rented then none
        else some ⟨{ queue with rented := n ::ₘ queue.rented }, .enqueue inputData (.storeData n), none⟩
  | .storeData newNode =>
      some ⟨queue.storeData newNode inputData, .enqueue inputData (.storeNext newNode), none⟩
  | .storeNext newNode =>
      some ⟨queue.storeNext newNode none, .enqueue inputData (.loadTailNode newNode), none⟩
  | .loadTailNode newNode =>
      some ⟨queue, .enqueue inputData (.loadTailUID newNode queue.mTail.DummyNode), none⟩
  | .loadTailUID newNode node =>
      some ⟨queue, .enqueue inputData (.loadNext newNode ⟨queue.mTail.UID, node⟩), none⟩
  | .loadNext newNode snapshotTail => some <| deref queue snapshotTail.DummyNode fun n =>
      match queue.next n with
      | some next => ⟨queue, .enqueue inputData (.moveTail newNode snapshotTail next), none⟩
      | none => ⟨queue, .enqueue inputData (.reloadTailNode newNode snapshotTail), none⟩
  | .moveTail newNode snapshotTail snapshotTailNodeNext =>
      some ⟨queue.moveTail snapshotTailNodeNext snapshotTail,
        .enqueue inputData (.loadTailNode newNode), none⟩
  | .reloadTailNode newNode snapshotTail =>
      some ⟨queue, .enqueue inputData (.link newNode snapshotTail queue.mTail.DummyNode), none⟩
  -- the node linked behind is the tail read again, not the snapshot's
  | .link newNode snapshotTail tailNode => some <| deref queue tailNode fun n =>
      if queue.next n = none then
        ⟨queue.storeNext n (some newNode), .enqueue inputData (.swingTail newNode snapshotTail), none⟩
      else ⟨queue, .enqueue inputData (.loadTailNode newNode), none⟩
  | .swingTail newNode snapshotTail =>
      some ⟨queue.moveTail newNode snapshotTail, .enqueue inputData .incrementUsedSize, none⟩
  | .incrementUsedSize =>
      some ⟨{ queue with mUsedSize := queue.mUsedSize + 1 }, .idle, some (.enqueued inputData)⟩

def DequeuePc.step : DequeuePc Node Value → QueueAdvance Node Value
  | .decrementUsedSize =>
      ⟨{ queue with mUsedSize := queue.mUsedSize - 1 },
        .tryDequeue (if queue.mUsedSize - 1 < 0 then .incrementUsedSize else .loadHeadNode), none⟩
  | .incrementUsedSize =>
      ⟨{ queue with mUsedSize := queue.mUsedSize + 1 }, .idle, some .empty⟩
  | .loadHeadNode => ⟨queue, .tryDequeue (.loadHeadUID queue.mHead.DummyNode), none⟩
  | .loadHeadUID node => ⟨queue, .tryDequeue (.loadTailNode ⟨queue.mHead.UID, node⟩), none⟩
  | .loadTailNode snapshotHead =>
      ⟨queue, .tryDequeue (.loadTailUID snapshotHead queue.mTail.DummyNode), none⟩
  | .loadTailUID snapshotHead node =>
      ⟨queue, .tryDequeue (.loadHeadNext snapshotHead ⟨queue.mTail.UID, node⟩), none⟩
  | .loadHeadNext snapshotHead snapshotTail => deref queue snapshotHead.DummyNode fun n =>
      ⟨queue, .tryDequeue (.loadTailNext snapshotHead snapshotTail (queue.next n)), none⟩
  | .loadTailNext snapshotHead snapshotTail nextDummyNode => deref queue snapshotTail.DummyNode fun n =>
      match nextDummyNode with
      | none => ⟨queue, .tryDequeue .loadHeadNode, none⟩
      | some nextDummyNode => match queue.next n with
        | some next => ⟨queue, .tryDequeue (.moveTail snapshotHead snapshotTail nextDummyNode next), none⟩
        | none => ⟨queue, .tryDequeue (.loadData snapshotHead nextDummyNode), none⟩
  | .moveTail snapshotHead snapshotTail nextDummyNode snapshotTailNodeNext =>
      ⟨queue.moveTail snapshotTailNodeNext snapshotTail,
        .tryDequeue (if queue.mTail = snapshotTail then .reloadTailNode snapshotHead nextDummyNode
          else .loadHeadNode), none⟩
  | .reloadTailNode snapshotHead nextDummyNode =>
      ⟨queue, .tryDequeue (.reloadTailNext snapshotHead nextDummyNode queue.mTail.DummyNode), none⟩
  | .reloadTailNext snapshotHead nextDummyNode tailNode => deref queue tailNode fun n =>
      ⟨queue, .tryDequeue (if queue.next n = none then .loadData snapshotHead nextDummyNode
        else .loadHeadNode), none⟩
  | .loadData snapshotHead nextDummyNode =>
      ⟨queue, .tryDequeue (.moveHead snapshotHead nextDummyNode (queue.data nextDummyNode)), none⟩
  | .moveHead snapshotHead nextDummyNode outputData =>
      if queue.mHead = snapshotHead then
        deref queue snapshotHead.DummyNode fun n =>
          ⟨{ queue with mHead := ⟨snapshotHead.UID + 1, some nextDummyNode⟩ },
            .tryDequeue (.giveBack n outputData), none⟩
      else ⟨queue, .tryDequeue .loadHeadNode, none⟩
  | .giveBack dummyNode outputData =>
      ⟨{ queue with rented := queue.rented.erase dummyNode }, .tryDequeue (.leave outputData), none⟩
  | .leave outputData => ⟨queue, .idle, some (.dequeued outputData)⟩

def QueuePc.step (fresh : Option Node) : QueuePc Node Value → Option (QueueAdvance Node Value)
  | .idle => none
  | .enqueue inputData pc => pc.step queue inputData fresh
  | .tryDequeue pc => some (pc.step queue)
  | .crashed => none

end Steps

/-- A queue, its callers, and the calls and returns so far. -/
structure QueueSystem (Thread Node Value : Type) where
  queue : LockFreeQueue Node Value
  threads : Thread → QueuePc Node Value
  history : List (Thread × QueueMark Value)

inductive QueueAction (Thread Node Value : Type) where
  | callEnqueue (t : Thread) (inputData : Value)
  | callTryDequeue (t : Thread)
  | run (t : Thread) (fresh : Option Node)

namespace QueueSystem

/-- What `Clear` sets up: a dummy node and nothing behind it. -/
def start (dummyNode : Node) (nodes : Node → QueueNode Node Value) :
    QueueSystem Thread Node Value :=
  ⟨(⟨⟨0, some dummyNode⟩, ⟨0, some dummyNode⟩, 0, nodes, {dummyNode}⟩ :
    LockFreeQueue Node Value).storeNext dummyNode none, fun _ => .idle, []⟩

variable [DecidableEq Thread]

/-- A thread has made its step. -/
def advance (s : QueueSystem Thread Node Value) (t : Thread) (a : QueueAdvance Node Value) :
    QueueSystem Thread Node Value :=
  ⟨a.queue, Function.update s.threads t a.pc, s.history ++ a.mark.toList.map (Prod.mk t)⟩

omit [DecidableEq Node] in
@[simp] theorem advance_self (s : QueueSystem Thread Node Value) (t : Thread)
    (a : QueueAdvance Node Value) : (s.advance t a).threads t = a.pc := Function.update_self ..

omit [DecidableEq Node] in
theorem advance_other (s : QueueSystem Thread Node Value) {t t' : Thread}
    (a : QueueAdvance Node Value) (h : t' ≠ t) : (s.advance t a).threads t' = s.threads t' :=
  Function.update_of_ne h ..

def step (s : QueueSystem Thread Node Value) :
    QueueAction Thread Node Value → Option (QueueSystem Thread Node Value)
  | .callEnqueue t inputData => match s.threads t with
    | .idle => some (s.advance t ⟨s.queue, .enqueue inputData .rent, some (.callEnqueue inputData)⟩)
    | _ => none
  | .callTryDequeue t => match s.threads t with
    | .idle => some (s.advance t ⟨s.queue, .tryDequeue .decrementUsedSize, some .callTryDequeue⟩)
    | _ => none
  | .run t fresh => ((s.threads t).step s.queue fresh).map (s.advance t)

/-- The action does not make a tag wrap around. -/
def Unwrapped (s : QueueSystem Thread Node Value) (action : QueueAction Thread Node Value) : Prop :=
  ∀ s', s.step action = some s' →
    s.queue.mHead.UID ≤ s'.queue.mHead.UID ∧ s.queue.mTail.UID ≤ s'.queue.mTail.UID

end QueueSystem

end NfNetwork.Collections
