import NfNetwork.Collections.LockFreeQueue
import NfNetwork.Machinery.Loop
import NfNetwork.ObjectPool.PoolReset

/-! `LockFreeQueue` in the hands of one thread, with its node pool. `Clear` gives every node
back and takes one for a new dummy node, but keeps `mUsedSize`: the queue is empty, and it
says so exactly if it was empty before. -/
namespace NfNetwork.Collections

open Machinery ObjectPool

variable {Node Value : Type}

structure PooledQueue (Node Value : Type) where
  mHead : Indexer Node
  mTail : Indexer Node
  mPool : ObjectPoolLockFree Node
  mUsedSize : Int
  mMaxCapacity : Nat
  nodes : Node → QueueNode Node Value

/-- `outOfPasses` is a loop that has not ended yet. -/
inductive QueueFailure where
  | pool (failure : Failure)
  | nullPointer
  | outOfPasses
deriving DecidableEq

inductive QueueOp (Value : Type) where
  | enqueue (inputData : Value)
  | tryDequeue
  | clear
  | getUsedSize
  | isEmpty

inductive QueueOutcome (Value : Type) where
  | enqueued
  | dequeued (outputData : Option Value)
  | done
  | usedSize (size : Int)
  | empty (isEmpty : Bool)
deriving DecidableEq

/-- What the same calls mean for a queue of values. -/
def fifoStep : List Value → QueueOp Value → Except QueueFailure (QueueOutcome Value × List Value)
  | values, .enqueue v => .ok (.enqueued, values ++ [v])
  | values, .tryDequeue => .ok (.dequeued values.head?, values.tail)
  | _, .clear => .ok (.done, [])
  | values, .getUsedSize => .ok (.usedSize values.length, values)
  | values, .isEmpty => .ok (.empty values.isEmpty, values)

/-- A call of the node pool. -/
def ofPool {Result : Type} : Except Failure Result → Except QueueFailure Result
  | .ok result => .ok result
  | .error failure => .error (.pool failure)

namespace PooledQueue

/-- The queue before its constructor calls `Init`. -/
def new (uid : UInt64) (blocks : Node → BlockNode Node) (nodes : Node → QueueNode Node Value) :
    PooledQueue Node Value :=
  ⟨⟨0, none⟩, ⟨0, none⟩, .new uid .None blocks, 0, 0, nodes⟩

section Operations

variable [DecidableEq Node] (A : Allocator Node) (passes : Nat) (queue : PooledQueue Node Value)

def next (n : Node) : Option Node := (queue.nodes n).Next

def data (n : Node) : Value := (queue.nodes n).Data

/-- One pass of the loop of `Enqueue`. The exchanges of a lone thread succeed. -/
def linkPass (newNode : Node) :
    Pass (PooledQueue Node Value) (Except QueueFailure (PooledQueue Node Value)) :=
  match queue.mTail.DummyNode with
  | none => .leave (.error .nullPointer)
  | some tail => match queue.next tail with
    | some next => .again { queue with mTail := ⟨queue.mTail.UID + 1, some next⟩ }
    | none => .leave (.ok { queue with
        nodes := Function.update queue.nodes tail { queue.nodes tail with Next := some newNode }
        mTail := ⟨queue.mTail.UID + 1, some newNode⟩
        mUsedSize := queue.mUsedSize + 1 })

def enqueue (inputData : Value) : Except QueueFailure (PooledQueue Node Value) := do
  let (newNode, mPool) ← ofPool (queue.mPool.rent A)
  let queue := { queue with
    mPool := mPool
    nodes := Function.update queue.nodes newNode ⟨none, inputData⟩ }
  (loop (linkPass · newNode) passes queue).getD (.error .outOfPasses)

/-- The end of `TryDequeue`. -/
def take (dummyNode nextDummyNode : Node) : Except QueueFailure (Value × PooledQueue Node Value) := do
  let mPool ← ofPool (queue.mPool.giveBack dummyNode)
  .ok (queue.data nextDummyNode, { queue with
    mHead := ⟨queue.mHead.UID + 1, some nextDummyNode⟩
    mPool := mPool })

/-- One pass of the loop of `TryDequeue`. -/
def takePass :
    Pass (PooledQueue Node Value) (Except QueueFailure (Value × PooledQueue Node Value)) :=
  match queue.mHead.DummyNode, queue.mTail.DummyNode with
  | some head, some tail => match queue.next head with
    | none => .again queue
    | some nextDummyNode => match queue.next tail with
      | none => .leave (queue.take head nextDummyNode)
      | some tailNext =>
        let queue := { queue with mTail := ⟨queue.mTail.UID + 1, some tailNext⟩ }
        if queue.next tailNext = none then .leave (queue.take head nextDummyNode) else .again queue
  | _, _ => .leave (.error .nullPointer)

def tryDequeue : Except QueueFailure (Option Value × PooledQueue Node Value) :=
  if queue.mUsedSize - 1 < 0 then .ok (none, queue)
  else do
    let (outputData, queue) ←
      (loop takePass passes { queue with mUsedSize := queue.mUsedSize - 1 }).getD (.error .outOfPasses)
    .ok (some outputData, queue)

/-- The loop of `Clear`, which reads the link of a node after it has given the node back. The
nodes are different blocks, so as many passes as there are blocks are enough. -/
def returnNodes :
    Nat → Option Node → ObjectPoolLockFree Node → Except QueueFailure (ObjectPoolLockFree Node)
  | _, none, mPool => .ok mPool
  | 0, some _, _ => .error .outOfPasses
  | passes + 1, some freeNode, mPool => do
    let mPool ← ofPool (mPool.giveBack freeNode)
    returnNodes passes (queue.next freeNode) mPool

/-- The nodes that `Clear` gives back: those behind the dummy node, then the dummy node. -/
def returnChain : Except QueueFailure (ObjectPoolLockFree Node) :=
  match queue.mHead.DummyNode with
  | none => .ok queue.mPool
  | some head => do
    let mPool ← queue.returnNodes queue.mPool.allocated.length (queue.next head) queue.mPool
    ofPool (mPool.giveBack head)

def clear : Except QueueFailure (PooledQueue Node Value) := do
  let mPool ← queue.returnChain
  let (dummyNode, mPool) ← ofPool (mPool.rent A)
  .ok { queue with
    mPool := mPool
    nodes := Function.update queue.nodes dummyNode { queue.nodes dummyNode with Next := none }
    mHead := ⟨0, some dummyNode⟩
    mTail := ⟨0, some dummyNode⟩ }

def init (maxCapacity : Nat) : Except QueueFailure (PooledQueue Node Value) := do
  let mPool ← ofPool (queue.mPool.init maxCapacity)
  let queue ← { queue with mPool := mPool }.clear A
  .ok { queue with mMaxCapacity := maxCapacity }

def isEmpty : Bool := queue.mUsedSize ≤ 0

def step : QueueOp Value → Except QueueFailure (QueueOutcome Value × PooledQueue Node Value)
  | .enqueue inputData => do
    let queue ← queue.enqueue A passes inputData
    .ok (.enqueued, queue)
  | .tryDequeue => do
    let (outputData, queue) ← queue.tryDequeue passes
    .ok (.dequeued outputData, queue)
  | .clear => do
    let queue ← queue.clear A
    .ok (.done, queue)
  | .getUsedSize => .ok (.usedSize queue.mUsedSize, queue)
  | .isEmpty => .ok (.empty queue.isEmpty, queue)

end Operations

/-- The chain of nodes, the dummy node first. Every block of the pool is once in the chain or
once in the free list. -/
structure Keeps (s : PooledQueue Node Value) (uid : UInt64) (blocks : Node → BlockNode Node)
    (chain freeList : List Node) (values : List Value) : Prop where
  linked : Chain s.next s.mHead.DummyNode chain none
  nonempty : chain ≠ []
  tail : s.mTail.DummyNode = chain.getLast?
  pool : (⟨s.mPool, chain⟩ : PoolClient Node).Keeps uid .None blocks freeList 0
  values : chain.tail.map s.data = values

section Invariant

variable {s : PooledQueue Node Value} {uid : UInt64} {blocks : Node → BlockNode Node}
  {nodes : Node → QueueNode Node Value} {chain freeList : List Node} {values : List Value}
  {head n : Node}

theorem Keeps.nodup (h : s.Keeps uid blocks chain freeList values) : chain.Nodup :=
  Multiset.coe_nodup.mp h.pool.rented_nodup

/-- The tail is the last node, and nothing is behind it. -/
theorem Keeps.last (h : s.Keeps uid blocks chain freeList values) :
    ∃ before tail, chain = before ++ [tail] ∧ s.mTail.DummyNode = some tail ∧
      s.next tail = none := by
  obtain ⟨before, tail, rfl⟩ : ∃ before tail, chain = before ++ [tail] :=
    ⟨_, _, (List.dropLast_append_getLast h.nonempty).symm⟩
  obtain ⟨middle, _, hLast⟩ := chain_append.mp h.linked
  exact ⟨before, tail, rfl, by rw [h.tail, List.getLast?_concat], hLast.2⟩

variable [DecidableEq Node] {A : Allocator Node} {passes : Nat}

theorem ofPool_ok {Result : Type} {call : Except Failure Result} {result : Result}
    (h : call = .ok result) : ofPool call = .ok result := by
  rw [h]
  rfl

/-- What `Enqueue` leaves if the tail is the last node. -/
theorem enqueue_eq {mPool : ObjectPoolLockFree Node} {tail : Node} {v : Value}
    (hRent : s.mPool.rent A = .ok (n, mPool)) (hTail : s.mTail.DummyNode = some tail)
    (hEnd : s.next tail = none) (hOther : tail ≠ n) :
    s.enqueue A (passes + 1) v = .ok { s with
      mPool := mPool
      nodes := Function.update (Function.update s.nodes n ⟨none, v⟩) tail ⟨some n, s.data tail⟩
      mTail := ⟨s.mTail.UID + 1, some n⟩
      mUsedSize := s.mUsedSize + 1 } := by
  have hEnd' : (s.nodes tail).Next = none := hEnd
  have hPass : ({ s with
      mPool := mPool
      nodes := Function.update s.nodes n ⟨none, v⟩ } : PooledQueue Node Value).linkPass n =
        .leave (.ok { s with
          mPool := mPool
          nodes := Function.update (Function.update s.nodes n ⟨none, v⟩) tail ⟨some n, s.data tail⟩
          mTail := ⟨s.mTail.UID + 1, some n⟩
          mUsedSize := s.mUsedSize + 1 }) := by
    simp [linkPass, hTail, next, data, Function.update_of_ne hOther, hEnd']
  rw [enqueue, ofPool_ok hRent]
  change (loop (linkPass · n) (passes + 1) { s with
    mPool := mPool
    nodes := Function.update s.nodes n ⟨none, v⟩ }).getD _ = _
  rw [loop_of_leave hPass]
  rfl

/-- `Enqueue` links a node that was in no place behind the last one. -/
theorem Keeps.enqueue (h : s.Keeps uid blocks chain freeList values) (passes : Nat) (v : Value) :
    ∃ s' n freeList', s.enqueue A (passes + 1) v = .ok s' ∧ s'.mUsedSize = s.mUsedSize + 1 ∧
      s'.Keeps uid blocks (chain ++ [n]) freeList' (values ++ [v]) := by
  obtain ⟨n, mPool, freeList', hOk, hFresh, -, hPool⟩ := h.pool.rent (A := A) (.inl rfl)
  have hApart : n ∉ chain := fun hMem => hFresh (Multiset.mem_coe.mpr hMem)
  obtain ⟨before, tail, rfl, hTail, hEnd⟩ := h.last
  have hOther : tail ≠ n := by
    rintro rfl
    exact hApart (by simp)
  have hBefore : tail ∉ before := by
    have hNodup := h.nodup
    rw [List.nodup_append] at hNodup
    exact fun hMem => hNodup.2.2 tail hMem tail (by simp) rfl
  let s' : PooledQueue Node Value := { s with
    mPool := mPool
    nodes := Function.update (Function.update s.nodes n ⟨none, v⟩) tail ⟨some n, s.data tail⟩
    mTail := ⟨s.mTail.UID + 1, some n⟩
    mUsedSize := s.mUsedSize + 1 }
  have hNext : s'.next = Function.update (Function.update s.next n none) tail (some n) := by
    funext m
    by_cases hLast : m = tail
    · subst hLast
      simp [s', next]
    · by_cases hNew : m = n
      · subst hNew
        simp [s', next, Function.update_of_ne hLast]
      · simp [s', next, Function.update_of_ne hLast, Function.update_of_ne hNew]
  have hData : ∀ m ≠ n, s'.data m = s.data m := by
    intro m hm
    by_cases hLast : m = tail
    · subst hLast
      simp [s', data]
    · simp [s', data, Function.update_of_ne hLast, Function.update_of_ne hm]
  refine ⟨s', n, freeList', enqueue_eq hOk hTail hEnd hOther, rfl, ?_, by simp, by simp [s'], ?_, ?_⟩
  · rw [hNext]
    have hChain : Chain (Function.update s.next n none) s.mHead.DummyNode (before ++ [tail]) none :=
      h.linked.update hApart none
    refine hChain.link (q := some n) ⟨rfl, ?_⟩ hBefore (by simpa using hOther)
    rw [chain_nil, Function.update_self]
  · have hPlaces : ((before ++ [tail] ++ [n] : List Node) : Multiset Node) =
        n ::ₘ ((before ++ [tail] : List Node) : Multiset Node) := by
      rw [← Multiset.coe_add, add_comm]
      rfl
    rw [hPlaces]
    exact hPool
  · have hSame : (before ++ [tail]).tail.map s'.data = values := by
      rw [← h.values]
      apply List.map_congr_left
      intro m hm
      apply hData
      rintro rfl
      exact hApart (List.mem_of_mem_tail hm)
    have hNew : s'.data n = v := by simp [s', data, Function.update_of_ne hOther.symm]
    rw [List.tail_append_of_ne_nil (by simp), List.map_append, hSame, List.map_singleton, hNew]

/-- What `TryDequeue` leaves if the tail is the last node, and not the dummy node. -/
theorem tryDequeue_eq {mPool : ObjectPoolLockFree Node} {tail : Node} (hUsed : 0 < s.mUsedSize)
    (hReturn : s.mPool.giveBack head = .ok mPool) (hHead : s.mHead.DummyNode = some head)
    (hNext : s.next head = some n) (hTail : s.mTail.DummyNode = some tail)
    (hEnd : s.next tail = none) :
    s.tryDequeue (passes + 1) = .ok (some (s.data n), { s with
      mHead := ⟨s.mHead.UID + 1, some n⟩
      mPool := mPool
      mUsedSize := s.mUsedSize - 1 }) := by
  have hNext' : (s.nodes head).Next = some n := hNext
  have hEnd' : (s.nodes tail).Next = none := hEnd
  have hPass : ({ s with mUsedSize := s.mUsedSize - 1 } : PooledQueue Node Value).takePass =
      .leave (.ok (s.data n, { s with
        mHead := ⟨s.mHead.UID + 1, some n⟩
        mPool := mPool
        mUsedSize := s.mUsedSize - 1 })) := by
    simp only [takePass, hHead, hTail, next, hNext', hEnd', take, ofPool_ok hReturn]
    rfl
  rw [tryDequeue, if_neg (by omega)]
  change ((loop takePass (passes + 1) { s with mUsedSize := s.mUsedSize - 1 }).getD _ >>= _) = _
  rw [loop_of_leave hPass]
  rfl

/-- `TryDequeue` gives the dummy node back and moves on to the next one. -/
theorem Keeps.tryDequeue {later : List Node}
    (h : s.Keeps uid blocks (head :: n :: later) freeList values) (passes : Nat)
    (hUsed : 0 < s.mUsedSize) :
    ∃ s', s.tryDequeue (passes + 1) = .ok (some (s.data n), s') ∧
      s'.mUsedSize = s.mUsedSize - 1 ∧
      s'.Keeps uid blocks (n :: later) (head :: freeList) (later.map s.data) := by
  obtain ⟨hHead, hNext, hLater⟩ := h.linked
  obtain ⟨mPool, hOk, -, hPool⟩ := h.pool.giveBack (n := head) (by simp)
  rw [← Multiset.cons_coe, Multiset.erase_cons_head] at hPool
  obtain ⟨before, tail, -, hTail, hEnd⟩ := h.last
  refine ⟨_, tryDequeue_eq hUsed hOk hHead hNext hTail hEnd, rfl, ⟨rfl, hLater⟩,
    List.cons_ne_nil _ _, ?_, hPool, rfl⟩
  change s.mTail.DummyNode = _
  rw [h.tail, List.getLast?_cons_cons]

/-- Without a node behind the dummy node a `TryDequeue` that trusts the counter never ends. -/
theorem Keeps.tryDequeue_stuck (h : s.Keeps uid blocks [head] freeList values)
    (hUsed : 0 < s.mUsedSize) (passes : Nat) : s.tryDequeue passes = .error .outOfPasses := by
  obtain ⟨hHead, hNext⟩ := h.linked
  let s₁ : PooledQueue Node Value := { s with mUsedSize := s.mUsedSize - 1 }
  have hTail : s₁.mTail.DummyNode = some head := h.tail
  have hPass : s₁.takePass = .again s₁ := by
    have hHead₁ : s₁.mHead.DummyNode = some head := hHead
    have hNext₁ : s₁.next head = none := hNext
    rw [takePass, hHead₁, hTail]
    dsimp only
    rw [hNext₁]
  have hLoop : loop takePass passes s₁ = none := by
    induction passes with
    | zero => rfl
    | succ passes ih => rw [loop_of_again hPass, ih]
  rw [PooledQueue.tryDequeue, if_neg (by omega)]
  change ((loop takePass passes s₁).getD _ >>= _) = _
  rw [hLoop]
  rfl

/-- The links lead on although their nodes are back in the pool. -/
theorem returnNodes_chain {mPool : ObjectPoolLockFree Node} {p : Option Node} {rest : Multiset Node}
    (hChain : Chain s.next p chain none)
    (hPool : (⟨mPool, chain + rest⟩ : PoolClient Node).Keeps uid .None blocks freeList 0)
    (hPasses : chain.length ≤ passes) :
    ∃ mPool', s.returnNodes passes p mPool = .ok mPool' ∧
      (⟨mPool', rest⟩ : PoolClient Node).Keeps uid .None blocks (chain.reverse ++ freeList) 0 := by
  induction chain generalizing p mPool freeList passes with
  | nil =>
      obtain rfl := chain_nil.mp hChain
      rw [Multiset.coe_nil, zero_add] at hPool
      refine ⟨mPool, ?_, hPool⟩
      cases passes <;> rfl
  | cons n later ih =>
      obtain ⟨rfl, hLater⟩ := hChain
      rw [← Multiset.cons_coe, Multiset.cons_add] at hPool
      obtain ⟨after, hOk, -, hAfter⟩ := hPool.giveBack (Multiset.mem_cons_self n _)
      rw [Multiset.erase_cons_head] at hAfter
      cases passes with
      | zero => cases hPasses
      | succ passes =>
          obtain ⟨mPool', hReturn, hKeeps⟩ := ih hLater hAfter (Nat.le_of_succ_le_succ hPasses)
          refine ⟨mPool', ?_, ?_⟩
          · rw [returnNodes, ofPool_ok hOk]
            exact hReturn
          · rw [List.reverse_cons, List.append_assoc]
            exact hKeeps

/-- The end of `Clear`: a new dummy node, and the old counter. -/
theorem clear_of_returnChain {mPool : ObjectPoolLockFree Node} (hReturn : s.returnChain = .ok mPool)
    (hPool : (⟨mPool, 0⟩ : PoolClient Node).Keeps uid .None blocks freeList 0) :
    ∃ s' n freeList', s.clear A = .ok s' ∧ s'.mUsedSize = s.mUsedSize ∧
      s'.Keeps uid blocks [n] freeList' [] := by
  obtain ⟨n, mPool', freeList', hOk, -, -, hAfter⟩ := hPool.rent (A := A) (.inl rfl)
  refine ⟨⟨⟨0, some n⟩, ⟨0, some n⟩, mPool', s.mUsedSize, s.mMaxCapacity,
    Function.update s.nodes n { s.nodes n with Next := none }⟩, n, freeList', ?_, rfl,
    ⟨rfl, ?_⟩, List.cons_ne_nil _ _, rfl, hAfter, rfl⟩
  · rw [clear, hReturn]
    change ofPool (mPool.rent A) >>= _ = _
    rw [ofPool_ok hOk]
    rfl
  · simp [next]

/-- `Clear` leaves the chain of an empty queue and does not set `mUsedSize`. -/
theorem Keeps.clear (h : s.Keeps uid blocks chain freeList values) :
    ∃ s' n freeList', s.clear A = .ok s' ∧ s'.mUsedSize = s.mUsedSize ∧
      s'.Keeps uid blocks [n] freeList' [] := by
  obtain ⟨head, later, rfl⟩ := List.exists_cons_of_ne_nil h.nonempty
  obtain ⟨hHead, hLater⟩ := h.linked
  have hLength : later.length ≤ s.mPool.allocated.length := by
    have hCard := congrArg Multiset.card h.pool.places
    simp only [Multiset.card_add, Multiset.coe_card, List.length_cons] at hCard
    omega
  have hPlaces : ((head :: later : List Node) : Multiset Node) = later + {head} := by
    rw [← Multiset.cons_coe, add_comm, Multiset.singleton_add]
  obtain ⟨mPool, hReturn, hPool⟩ := returnNodes_chain hLater (hPlaces ▸ h.pool) hLength
  obtain ⟨mPool', hOk, -, hAfter⟩ := hPool.giveBack (Multiset.mem_singleton_self head)
  rw [← Multiset.cons_zero, Multiset.erase_cons_head] at hAfter
  refine clear_of_returnChain ?_ hAfter
  rw [returnChain, hHead]
  change s.returnNodes _ _ _ >>= _ = _
  rw [hReturn]
  exact ofPool_ok hOk

/-- What the constructor leaves. -/
theorem new_init (A : Allocator Node) (uid : UInt64) (blocks : Node → BlockNode Node)
    (nodes : Node → QueueNode Node Value) (maxCapacity : Nat) :
    ∃ s n freeList, (new uid blocks nodes).init A maxCapacity = .ok s ∧ s.mUsedSize = 0 ∧
      s.Keeps uid blocks [n] freeList [] := by
  obtain ⟨mPool, hInit, -, -, hPool⟩ :=
    (PoolClient.Keeps.new uid .None blocks).init (s := .new uid .None blocks) rfl maxCapacity
  let s₁ : PooledQueue Node Value := { new uid blocks nodes with mPool := mPool }
  have hReturn : s₁.returnChain = .ok mPool := rfl
  obtain ⟨s', n, freeList, hClear, hUsed, hKeeps⟩ := clear_of_returnChain (A := A) hReturn hPool
  refine ⟨{ s' with mMaxCapacity := maxCapacity }, n, freeList, ?_, hUsed, hKeeps.linked,
    hKeeps.nonempty, hKeeps.tail, hKeeps.pool, hKeeps.values⟩
  rw [init, show (new uid blocks nodes).mPool.init maxCapacity = .ok mPool from hInit]
  change s₁.clear A >>= _ = _
  rw [hClear]
  rfl

end Invariant

/-- The queue holds these values and counts them. -/
def Holds (uid : UInt64) (blocks : Node → BlockNode Node) (s : PooledQueue Node Value)
    (values : List Value) : Prop :=
  s.mUsedSize = values.length ∧ ∃ chain freeList, s.Keeps uid blocks chain freeList values

section Behaviour

variable [DecidableEq Node] {A : Allocator Node} {passes : Nat} {s : PooledQueue Node Value}
  {uid : UInt64} {blocks : Node → BlockNode Node} {nodes : Node → QueueNode Node Value}
  {values : List Value} {maxCapacity : Nat} {ops : List (QueueOp Value)}

/-- `Clear` is only called on an empty queue. -/
def ClearsEmpty (ops : List (QueueOp Value)) : Prop :=
  Heeds fifoStep (fun values op => op = .clear → values = []) [] ops

/-- At every moment the queue has given the outcomes that a queue of values gives, holds the
values that it holds, and counts them. -/
def ActsAsFifo (A : Allocator Node) (uid : UInt64) (blocks : Node → BlockNode Node)
    (nodes : Node → QueueNode Node Value) (maxCapacity passes : Nat) (ops : List (QueueOp Value)) :
    Prop :=
  ∃ queue, (new uid blocks nodes).init A maxCapacity = .ok queue ∧
    ∀ before later, ops = before ++ later → ∃ outcomes s values,
      answers (step A passes) queue before = .ok (outcomes, s) ∧
      answers fifoStep [] before = .ok (outcomes, values) ∧ s.Holds uid blocks values

theorem Holds.serve {op : QueueOp Value} (h : s.Holds uid blocks values)
    (hOp : op = .clear → values = []) : ∃ outcome s' values',
      s.step A (passes + 1) op = .ok (outcome, s') ∧ fifoStep values op = .ok (outcome, values') ∧
      s'.Holds uid blocks values' := by
  obtain ⟨hUsed, chain, freeList, h⟩ := h
  cases op with
  | enqueue v =>
      obtain ⟨s', n, freeList', hOk, hSize, hAfter⟩ := h.enqueue (A := A) passes v
      refine ⟨.enqueued, s', values ++ [v], ?_, rfl, ?_, _, _, hAfter⟩
      · rw [step, hOk]
        rfl
      · rw [hSize, hUsed, List.length_append]
        rfl
  | tryDequeue =>
      obtain ⟨head, later, rfl⟩ := List.exists_cons_of_ne_nil h.nonempty
      cases later with
      | nil =>
          obtain rfl : [] = values := h.values
          refine ⟨.dequeued none, s, [], ?_, rfl, hUsed, _, _, h⟩
          rw [step, tryDequeue, if_pos (by simp [hUsed])]
          rfl
      | cons n later =>
          obtain rfl : s.data n :: later.map s.data = values := h.values
          rw [List.length_cons] at hUsed
          obtain ⟨s', hOk, hSize, hAfter⟩ := h.tryDequeue passes (by omega)
          refine ⟨.dequeued (some (s.data n)), s', later.map s.data, ?_, rfl, ?_, _, _, hAfter⟩
          · rw [step, hOk]
            rfl
          · rw [hSize, hUsed]
            omega
  | clear =>
      obtain rfl := hOp rfl
      obtain ⟨s', n, freeList', hOk, hSize, hAfter⟩ := h.clear (A := A)
      refine ⟨.done, s', [], ?_, rfl, hSize.trans hUsed, _, _, hAfter⟩
      rw [step, hOk]
      rfl
  | getUsedSize => exact ⟨_, s, values, by rw [step, hUsed], rfl, hUsed, _, _, h⟩
  | isEmpty =>
      refine ⟨_, s, values, ?_, rfl, hUsed, _, _, h⟩
      rw [step, isEmpty, hUsed]
      cases values with
      | nil => rfl
      | cons v later => simp

/-- The queue is the queue of values that its client expects exactly if `Clear` is never
called on a queue that holds something. -/
theorem actsAsFifo_iff (A : Allocator Node) (uid : UInt64) (blocks : Node → BlockNode Node)
    (nodes : Node → QueueNode Node Value) (maxCapacity passes : Nat) (ops : List (QueueOp Value)) :
    ActsAsFifo A uid blocks nodes maxCapacity (passes + 1) ops ↔ ClearsEmpty ops := by
  obtain ⟨queue, n, freeList, hInit, hUsed, hKeeps⟩ := new_init A uid blocks nodes maxCapacity
  constructor
  · intro hActs before op later outcomes values hOps hValues hClear
    obtain ⟨start, hStart, hActs⟩ := hActs
    obtain rfl := Except.ok.inj (hStart.symm.trans hInit)
    subst hClear
    -- the counter before this `Clear` is the counter after it
    obtain ⟨outcomes₁, s₁, values₁, hBefore, hFifo, hUsed₁, chain, freeList', hKeeps₁⟩ :=
      hActs before (.clear :: later) hOps
    obtain ⟨s₂, m, freeList'', hOk, hSame, -⟩ := hKeeps₁.clear (A := A)
    have hCleared : s₁.step A (passes + 1) .clear = .ok (.done, s₂) := by
      rw [step, hOk]
      rfl
    obtain ⟨outcomes₂, s₃, values₂, hAfter, hFifo₂, hUsed₂, -⟩ :=
      hActs (before ++ [.clear]) later (by rw [hOps, List.append_assoc]; rfl)
    cases (answers_concat hBefore hCleared).symm.trans hAfter
    have hNone : fifoStep values₁ (.clear : QueueOp Value) = .ok (.done, []) := rfl
    cases (answers_concat hFifo hNone).symm.trans hFifo₂
    cases hValues.symm.trans hFifo
    rw [hSame, hUsed₁, List.length_nil] at hUsed₂
    exact List.eq_nil_of_length_eq_zero (by omega)
  · intro hClears
    refine ⟨queue, hInit, ?_⟩
    rintro before later rfl
    have hHolds : queue.Holds uid blocks ([] : List Value) := ⟨hUsed, _, _, hKeeps⟩
    exact answers_of_heeded (fun h hOp => h.serve hOp) hHolds hClears

end Behaviour

section Threads

variable {Thread : Type} [DecidableEq Thread] [DecidableEq Node] {A : Allocator Node} {passes : Nat}
  {s s' : PooledQueue Node Value} {uid : UInt64} {blocks : Node → BlockNode Node}
  {chain freeList : List Node} {values : List Value} {n head : Node} {v : Value}
  {threads : Thread → QueuePc Node Value} {t : Thread} {history : List (Thread × QueueMark Value)}

/-- The part of the queue that the step model has. -/
def shared (queue : PooledQueue Node Value) (rented : Multiset Node) : LockFreeQueue Node Value :=
  ⟨queue.mHead, queue.mTail, queue.mUsedSize, queue.nodes, rented⟩

/-- The threads of the step model, one of which runs alone, do the same. -/
theorem Keeps.exec_enqueue {mPool : ObjectPoolLockFree Node}
    (h : s.Keeps uid blocks chain freeList values) (hIdle : threads t = .idle)
    (hRent : s.mPool.rent A = .ok (n, mPool)) (hOk : s.enqueue A (passes + 1) v = .ok s') :
    exec QueueSystem.step ⟨s.shared chain, threads, history⟩
      (.callEnqueue t v :: List.replicate 10 (.run t (some n))) =
        some ⟨s'.shared (n ::ₘ chain), threads, history ++ [(t, .callEnqueue v), (t, .enqueued v)]⟩ := by
  obtain ⟨m, mPool', freeList', hFound, hApart, -⟩ := h.pool.rent (A := A) (.inl rfl)
  cases hRent.symm.trans hFound
  have hFresh : n ∉ chain := fun hMem => hApart (Multiset.mem_coe.mpr hMem)
  obtain ⟨before, tail, rfl, hTail, hEnd⟩ := h.last
  have hOther : tail ≠ n := by
    rintro rfl
    exact hFresh (by simp)
  rw [enqueue_eq hRent hTail hEnd hOther] at hOk
  cases hOk
  have hEnd' : (s.nodes tail).Next = none := hEnd
  have hCurrent : s.mTail = ⟨s.mTail.UID, some tail⟩ := by rw [← hTail]
  simp [exec, QueueSystem.step, QueueSystem.advance, hIdle, QueuePc.step, EnqueuePc.step,
    List.replicate, shared, deref, LockFreeQueue.storeData, LockFreeQueue.storeNext,
    LockFreeQueue.moveTail, LockFreeQueue.next, hFresh, hOther, hEnd', hTail, data, eq_true hCurrent]

theorem Keeps.exec_tryDequeue {later : List Node}
    (h : s.Keeps uid blocks (head :: n :: later) freeList values) (hIdle : threads t = .idle)
    (hUsed : 0 < s.mUsedSize) (hOk : s.tryDequeue (passes + 1) = .ok (some v, s')) :
    exec QueueSystem.step ⟨s.shared ↑(head :: n :: later), threads, history⟩
      (.callTryDequeue t :: List.replicate 11 (.run t none)) =
        some ⟨s'.shared ↑(n :: later), threads,
          history ++ [(t, .callTryDequeue), (t, .dequeued v)]⟩ := by
  obtain ⟨before, tail, -, hTail, hEnd⟩ := h.last
  obtain ⟨hHead, hNext, -⟩ := h.linked
  obtain ⟨mPool, hReturn, -, -⟩ := h.pool.giveBack (n := head) (by simp)
  rw [tryDequeue_eq hUsed hReturn hHead hNext hTail hEnd] at hOk
  cases hOk
  have hEnd' : (s.nodes tail).Next = none := hEnd
  have hNext' : (s.nodes head).Next = some n := hNext
  have hCurrent : s.mHead = ⟨s.mHead.UID, some head⟩ := by rw [← hHead]
  have hSome : ¬s.mUsedSize < 1 := by omega
  simp [exec, QueueSystem.step, QueueSystem.advance, hIdle, QueuePc.step, DequeuePc.step,
    List.replicate, shared, deref, LockFreeQueue.next, LockFreeQueue.data, hHead, hTail, hEnd',
    hNext', data, hSome, eq_true hCurrent]

end Threads

section Cleared

private def afterAll : Allocator Nat where
  malloc allocated := allocated.sum + 1
  fresh := sum_succ_not_mem

/-- One value is enqueued, then the queue is cleared: it still counts the value, and the next
`TryDequeue` does not end. -/
theorem not_actsAsFifo_of_cleared :
    (∃ queue, (new 0 (fun _ => ⟨none, 0, false, 0⟩) fun _ => ⟨none, 0⟩ :
        PooledQueue Nat Nat).init afterAll 1 = .ok queue ∧
      ∀ passes, answers (step afterAll (passes + 1)) queue [.enqueue 7, .clear, .tryDequeue] =
        .error .outOfPasses) ∧
    ¬ ∀ (passes : Nat) (ops : List (QueueOp Nat)),
      ActsAsFifo afterAll 0 (fun _ => ⟨none, 0, false, 0⟩) (fun _ => ⟨none, 0⟩) 1 (passes + 1) ops := by
  constructor
  · obtain ⟨queue, n, freeList, hInit, hUsed, hKeeps⟩ := new_init afterAll 0
      (fun _ => ⟨none, 0, false, 0⟩) (fun _ => (⟨none, 0⟩ : QueueNode Nat Nat)) 1
    refine ⟨queue, hInit, fun passes => ?_⟩
    obtain ⟨s₁, m, freeList₁, hOk, hUsed₁, hKeeps₁⟩ :=
      hKeeps.enqueue (A := afterAll) passes 7
    obtain ⟨s₂, head, freeList₂, hOk₂, hUsed₂, hKeeps₂⟩ := hKeeps₁.clear (A := afterAll)
    have hStuck := hKeeps₂.tryDequeue_stuck (by omega) (passes + 1)
    rw [answers_ok (show queue.step afterAll (passes + 1) (.enqueue 7) = .ok (.enqueued, s₁) by
        rw [step, hOk]
        rfl),
      answers_ok (show s₁.step afterAll (passes + 1) .clear = .ok (.done, s₂) by
        rw [step, hOk₂]
        rfl),
      answers, step, hStuck]
    rfl
  · intro hAll
    have hClears := (actsAsFifo_iff afterAll 0 _ _ 1 0 _).mp (hAll 0 [.enqueue 7, .clear])
    exact absurd (hClears [.enqueue 7] .clear [] _ _ rfl rfl rfl) (by decide)

end Cleared

end PooledQueue

end NfNetwork.Collections
