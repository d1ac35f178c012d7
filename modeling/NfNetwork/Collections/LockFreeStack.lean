import NfNetwork.Machinery.Lifo
import NfNetwork.Machinery.Transition
import Mathlib.Logic.Function.Basic

/-! `LockFreeStack` step by step, in the grain of `ObjectPoolLockFree`. The node pool
is what it promises: `Rent` returns a node that is not in use, with the contents it
was returned with, or throws. -/
namespace NfNetwork.Collections

open Machinery

structure StackNode (Node Value : Type) where
  Next : Option Node
  Data : Value

structure StackIndexer (Node : Type) where
  UID : UInt64
  Node : Option Node
deriving DecidableEq

/-- The stack, the memory of its nodes, and the nodes that `mPool` has handed out. -/
structure LockFreeStack (Node Value : Type) where
  mHead : StackIndexer Node
  mUsedSize : Int
  mMaxCapacity : Nat
  nodes : Node → StackNode Node Value
  rented : Multiset Node

/-- Where a thread is in `Push`. -/
inductive PushPc (Node : Type) where
  | checkCapacity
  | rent
  | storeData (newNode : Node)
  | loadUID (newNode : Node)
  | loadNode (newNode : Node) (uid : UInt64)
  | storeNext (newNode : Node) (snapshotHead : StackIndexer Node)
  | compareExchange (newNode : Node) (snapshotHead : StackIndexer Node)
  | incrementUsedSize
deriving DecidableEq

/-- Where a thread is in `TryPop`. -/
inductive PopPc (Node Value : Type) where
  | decrementUsedSize
  | incrementUsedSize
  | loadUID
  | loadNode (uid : UInt64)
  | loadNext (snapshotHead : StackIndexer Node)
  | compareExchange (snapshotHead : StackIndexer Node) (next : Option Node)
  | loadData (snapshotNode : Node)
  | giveBack (snapshotNode : Node) (outputData : Value)
  | leave (outputData : Value)
deriving DecidableEq

/-- `crashed` stands for a failed assertion or a null pointer dereferenced. -/
inductive StackPc (Node Value : Type) where
  | idle
  | push (inputData : Value) (pc : PushPc Node)
  | tryPop (pc : PopPc Node Value)
  | crashed
deriving DecidableEq

structure StackAdvance (Node Value : Type) where
  stack : LockFreeStack Node Value
  pc : StackPc Node Value
  mark : Option (StackMark Value)

variable {Thread Node Value : Type} [DecidableEq Node]

namespace LockFreeStack

variable (stack : LockFreeStack Node Value)

def next (n : Node) : Option Node := (stack.nodes n).Next

def data (n : Node) : Value := (stack.nodes n).Data

def storeNext (n : Node) (link : Option Node) : LockFreeStack Node Value :=
  { stack with nodes := Function.update stack.nodes n { stack.nodes n with Next := link } }

def storeData (n : Node) (value : Value) : LockFreeStack Node Value :=
  { stack with nodes := Function.update stack.nodes n { stack.nodes n with Data := value } }

/-- `InterlockedCompareExchange128` on `mHead`; a failure returns what is there. -/
def compareExchangeHead (node : Option Node) (comparand : StackIndexer Node) :
    Except (StackIndexer Node) (LockFreeStack Node Value) :=
  if stack.mHead = comparand then .ok { stack with mHead := ⟨comparand.UID + 1, node⟩ }
  else .error stack.mHead

/-- `Push` compares the signed counter as a `size_t`. -/
def full : Bool := stack.mMaxCapacity < (stack.mUsedSize % 2 ^ 64).toNat

theorem storeNext_next (n : Node) (link : Option Node) :
    (stack.storeNext n link).next = Function.update stack.next n link := by
  funext m
  by_cases hSame : m = n
  · subst hSame
    simp [next, storeNext]
  · simp [next, storeNext, Function.update_of_ne hSame]

theorem storeNext_data (n : Node) (link : Option Node) :
    (stack.storeNext n link).data = stack.data := by
  funext m
  by_cases hSame : m = n
  · subst hSame
    simp [data, storeNext]
  · simp [data, storeNext, Function.update_of_ne hSame]

theorem storeData_next (n : Node) (value : Value) :
    (stack.storeData n value).next = stack.next := by
  funext m
  by_cases hSame : m = n
  · subst hSame
    simp [next, storeData]
  · simp [next, storeData, Function.update_of_ne hSame]

theorem storeData_data (n : Node) (value : Value) :
    (stack.storeData n value).data = Function.update stack.data n value := by
  funext m
  by_cases hSame : m = n
  · subst hSame
    simp [data, storeData]
  · simp [data, storeData, Function.update_of_ne hSame]

variable {stack} {stack' : LockFreeStack Node Value} {node : Option Node}
  {comparand head : StackIndexer Node}

/-- The exchange succeeds where the head is the snapshot, tag included. -/
@[simp] theorem compareExchangeHead_eq_ok : stack.compareExchangeHead node comparand = .ok stack' ↔
    stack.mHead = comparand ∧ stack' = { stack with mHead := ⟨comparand.UID + 1, node⟩ } := by
  rw [compareExchangeHead]
  split <;> simp_all [eq_comm]

/-- Otherwise it reports the head it found. -/
@[simp] theorem compareExchangeHead_eq_error :
    stack.compareExchangeHead node comparand = .error head ↔
      stack.mHead ≠ comparand ∧ head = stack.mHead := by
  rw [compareExchangeHead]
  split <;> simp_all [eq_comm]

end LockFreeStack

section Steps

variable (stack : LockFreeStack Node Value)

def PushPc.step (inputData : Value) (fresh : Option Node) :
    PushPc Node → Option (StackAdvance Node Value)
  | .checkCapacity => some <|
      if stack.full then ⟨stack, .idle, some (.full inputData)⟩
      else ⟨stack, .push inputData .rent, none⟩
  | .rent => match fresh with
    -- `Rent` throws `std::bad_alloc`
    | none => some ⟨stack, .idle, some (.threw inputData)⟩
    | some n =>
        if n ∈ stack.rented then none
        else some ⟨{ stack with rented := n ::ₘ stack.rented }, .push inputData (.storeData n), none⟩
  | .storeData newNode =>
      some ⟨stack.storeData newNode inputData, .push inputData (.loadUID newNode), none⟩
  | .loadUID newNode => some ⟨stack, .push inputData (.loadNode newNode stack.mHead.UID), none⟩
  | .loadNode newNode uid =>
      some ⟨stack, .push inputData (.storeNext newNode ⟨uid, stack.mHead.Node⟩), none⟩
  | .storeNext newNode snapshotHead =>
      some ⟨stack.storeNext newNode snapshotHead.Node,
        .push inputData (.compareExchange newNode snapshotHead), none⟩
  | .compareExchange newNode snapshotHead => some <|
    match stack.compareExchangeHead (some newNode) snapshotHead with
    | .error head => ⟨stack, .push inputData (.storeNext newNode head), none⟩
    | .ok stack' => ⟨stack', .push inputData .incrementUsedSize, some (.push inputData)⟩
  | .incrementUsedSize =>
      some ⟨{ stack with mUsedSize := stack.mUsedSize + 1 }, .idle, some (.pushed inputData)⟩

def PopPc.step : PopPc Node Value → StackAdvance Node Value
  | .decrementUsedSize =>
      ⟨{ stack with mUsedSize := stack.mUsedSize - 1 },
        .tryPop (if stack.mUsedSize - 1 < 0 then .incrementUsedSize else .loadUID), none⟩
  | .incrementUsedSize =>
      ⟨{ stack with mUsedSize := stack.mUsedSize + 1 }, .idle, some .empty⟩
  | .loadUID => ⟨stack, .tryPop (.loadNode stack.mHead.UID), none⟩
  | .loadNode uid => match stack.mHead.Node with
    -- the assertion after the load
    | none => ⟨stack, .crashed, none⟩
    | some n => ⟨stack, .tryPop (.loadNext ⟨uid, some n⟩), none⟩
  | .loadNext snapshotHead => match snapshotHead.Node with
    | none => ⟨stack, .crashed, none⟩
    | some n => ⟨stack, .tryPop (.compareExchange snapshotHead (stack.next n)), none⟩
  | .compareExchange snapshotHead next => match stack.compareExchangeHead next snapshotHead with
    | .error head => ⟨stack, .tryPop (.loadNext head), none⟩
    | .ok stack' => match snapshotHead.Node with
      | none => ⟨stack', .crashed, none⟩
      | some n => ⟨stack', .tryPop (.loadData n), some (.pop (stack.data n))⟩
  | .loadData snapshotNode =>
      ⟨stack, .tryPop (.giveBack snapshotNode (stack.data snapshotNode)), none⟩
  | .giveBack snapshotNode outputData =>
      ⟨{ stack with rented := stack.rented.erase snapshotNode }, .tryPop (.leave outputData), none⟩
  | .leave outputData => ⟨stack, .idle, some (.popped outputData)⟩

def StackPc.step (fresh : Option Node) : StackPc Node Value → Option (StackAdvance Node Value)
  | .idle => none
  | .push inputData pc => pc.step stack inputData fresh
  | .tryPop pc => some (pc.step stack)
  | .crashed => none

end Steps

/-- A stack, its callers, and the calls, effects and returns so far. -/
structure StackSystem (Thread Node Value : Type) where
  stack : LockFreeStack Node Value
  threads : Thread → StackPc Node Value
  history : List (Thread × StackMark Value)

namespace StackSystem

/-- A new stack after `Init`. -/
def start (maxCapacity : Nat) (nodes : Node → StackNode Node Value) :
    StackSystem Thread Node Value :=
  ⟨⟨⟨0, none⟩, 0, maxCapacity, nodes, 0⟩, fun _ => .idle, []⟩

/-- 1 if a step replaces `mHead`. -/
def headUpdate (s s' : StackSystem Thread Node Value) : Nat :=
  if s.stack.mHead = s'.stack.mHead then 0 else 1

/-- A step updates the head once at most. -/
theorem headUpdate_le_one (s s' : StackSystem Thread Node Value) : s.headUpdate s' ≤ 1 := by
  rw [headUpdate]
  split <;> decide

/-- A head that is left alone is not updated. -/
theorem headUpdate_same {s s' : StackSystem Thread Node Value}
    (h : s'.stack.mHead = s.stack.mHead) : s.headUpdate s' = 0 := if_pos h.symm

theorem headUpdate_next {s s' : StackSystem Thread Node Value}
    (h : s'.stack.mHead.UID = s.stack.mHead.UID + 1) : s.headUpdate s' = 1 := by
  apply if_neg
  intro hSame
  rw [← hSame] at h
  simp at h

end StackSystem

inductive StackAction (Thread Node Value : Type) where
  | callPush (t : Thread) (inputData : Value)
  | callTryPop (t : Thread)
  | run (t : Thread) (fresh : Option Node)

namespace StackSystem

variable [DecidableEq Thread]

/-- A thread has made its step. -/
def advance (s : StackSystem Thread Node Value) (t : Thread) (a : StackAdvance Node Value) :
    StackSystem Thread Node Value :=
  ⟨a.stack, Function.update s.threads t a.pc, s.history ++ a.mark.toList.map (Prod.mk t)⟩

omit [DecidableEq Node] in
@[simp] theorem advance_self (s : StackSystem Thread Node Value) (t : Thread)
    (a : StackAdvance Node Value) : (s.advance t a).threads t = a.pc := Function.update_self ..

omit [DecidableEq Node] in
theorem advance_other (s : StackSystem Thread Node Value) {t t' : Thread}
    (a : StackAdvance Node Value) (h : t' ≠ t) : (s.advance t a).threads t' = s.threads t' :=
  Function.update_of_ne h ..

def step (s : StackSystem Thread Node Value) :
    StackAction Thread Node Value → Option (StackSystem Thread Node Value)
  | .callPush t inputData => match s.threads t with
    | .idle => some (s.advance t ⟨s.stack, .push inputData .checkCapacity, some (.callPush inputData)⟩)
    | _ => none
  | .callTryPop t => match s.threads t with
    | .idle => some (s.advance t ⟨s.stack, .tryPop .decrementUsedSize, some .callTryPop⟩)
    | _ => none
  | .run t fresh => ((s.threads t).step s.stack fresh).map (s.advance t)

/-- What a `Push` comes to that no other thread disturbs. -/
def pushAlone (s : StackSystem Thread Node Value) (t : Thread) (newNode : Node) (inputData : Value) :
    StackSystem Thread Node Value where
  stack := { (s.stack.storeData newNode inputData).storeNext newNode s.stack.mHead.Node with
    mHead := ⟨s.stack.mHead.UID + 1, some newNode⟩
    mUsedSize := s.stack.mUsedSize + 1
    rented := newNode ::ₘ s.stack.rented }
  threads := s.threads
  history := s.history ++ [(t, .callPush inputData), (t, .push inputData), (t, .pushed inputData)]

/-- Nine steps of one thread make a whole `Push`. -/
theorem exec_pushAlone {s : StackSystem Thread Node Value} {t : Thread} {newNode : Node}
    (inputData : Value) (hIdle : s.threads t = .idle) (hFresh : newNode ∉ s.stack.rented)
    (hRoom : s.stack.full = false) :
    exec step s (.callPush t inputData :: List.replicate 8 (.run t (some newNode))) =
      some (s.pushAlone t newNode inputData) := by
  obtain ⟨⟨⟨uid, head⟩, used, capacity, nodes, rented⟩, threads, history⟩ := s
  dsimp only at hRoom hFresh hIdle
  simp [exec, step, hIdle, advance, StackPc.step, PushPc.step, hRoom, hFresh, pushAlone,
    LockFreeStack.compareExchangeHead, LockFreeStack.storeData, LockFreeStack.storeNext, List.replicate]

end StackSystem

end NfNetwork.Collections
