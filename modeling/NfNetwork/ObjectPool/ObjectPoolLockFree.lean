import NfNetwork.Machinery.Transition
import Mathlib.Data.Multiset.AddSub
import Mathlib.Logic.Function.Basic

/-! `ObjectPoolLockFree` step by step. Every shared load or store and every
`Interlocked` call is a step of its own; the steps of the threads interleave in any
order. What `malloc` returns is an input. -/
namespace NfNetwork.ObjectPool

open Machinery

def LOCKFREE_BLOCKNODE_GUARD : Int := 0x1234567890ABCDEF

inductive eAllocationPolicy where
  | CallConstructorDestructor
  | None
deriving DecidableEq

/-- A block. Of the object only whether it has been constructed is kept. -/
structure BlockNode (Node : Type) where
  Next : Option Node
  SafeUpper : Int
  t : Bool
  SafeLower : Int

/-- The asserted memory guards around the object. -/
def BlockNode.guarded {Node : Type} (block : BlockNode Node) : Bool :=
  block.SafeUpper == LOCKFREE_BLOCKNODE_GUARD && block.SafeLower == LOCKFREE_BLOCKNODE_GUARD

structure Indexer (Node : Type) where
  UID : UInt64
  Node : Option Node
deriving DecidableEq

/-- The pool and the memory its blocks are in. `allocated` are the blocks that
`malloc` has returned; only the destructor frees them. -/
structure ObjectPoolLockFree (Node : Type) where
  mHead : Indexer Node
  mMaxCapacity : Nat
  mCachedSize : Int
  mUsedSize : Int
  mPolicy : eAllocationPolicy
  nodes : Node → BlockNode Node
  allocated : List Node

/-- Where a thread is in `Rent`. -/
inductive RentPc (Node : Type) where
  | decrementCachedSize
  | incrementCachedSize
  | allocateFreeBlockNodes
  | incrementMaxCapacity (newAllocNode : Node)
  | loadNode
  | loadUID (node : Option Node)
  | loadNext (headSnapshot : Indexer Node)
  | compareExchange (headSnapshot : Indexer Node) (next : Option Node)
  | construct (allocBlockNode : Node)
  | incrementUsedSize (allocBlockNode : Node)

/-- Where a thread is in `Return`. -/
inductive ReturnPc (Node : Type) where
  | destroy (curNode : Node)
  | loadNode (curNode : Node)
  | loadUID (curNode : Node) (node : Option Node)
  | storeNext (curNode : Node) (headSnapshot : Indexer Node)
  | compareExchange (curNode : Node) (headSnapshot : Indexer Node)
  | incrementCachedSize
  | decrementUsedSize

/-- `crashed` stands for a failed assertion or a null pointer dereferenced. -/
inductive PoolPc (Node : Type) where
  | idle
  | rent (pc : RentPc Node)
  | giveBack (pc : ReturnPc Node)
  | crashed

/-- What a step leaves behind, and the object it returns from `Rent`. -/
structure PoolAdvance (Node : Type) where
  pool : ObjectPoolLockFree Node
  pc : PoolPc Node
  rented : Option Node

variable {Thread Node : Type} [DecidableEq Thread] [DecidableEq Node]

namespace ObjectPoolLockFree

variable (pool : ObjectPoolLockFree Node)

/-- `Next` of a block, as the free list reads it. -/
def next (n : Node) : Option Node := (pool.nodes n).Next

def storeNext (n : Node) (link : Option Node) : ObjectPoolLockFree Node :=
  { pool with nodes := Function.update pool.nodes n { pool.nodes n with Next := link } }

/-- The placement new, or the explicit destructor call. -/
def storeObject (n : Node) (constructed : Bool) : ObjectPoolLockFree Node :=
  { pool with nodes := Function.update pool.nodes n { pool.nodes n with t := constructed } }

/-- A successful `AllocateFreeBlockNodes(1)`. -/
def allocateFreeBlockNodes (n : Node) : ObjectPoolLockFree Node :=
  { pool with
    nodes := Function.update pool.nodes n
      ⟨none, LOCKFREE_BLOCKNODE_GUARD, pool.mPolicy == .None, LOCKFREE_BLOCKNODE_GUARD⟩
    allocated := n :: pool.allocated }

/-- `InterlockedCompareExchange128` on `mHead`; a failure returns what is there. -/
def compareExchangeHead (node : Option Node) (comparand : Indexer Node) :
    Except (Indexer Node) (ObjectPoolLockFree Node) :=
  if pool.mHead = comparand then .ok { pool with mHead := ⟨comparand.UID + 1, node⟩ }
  else .error pool.mHead

theorem storeNext_next (n : Node) (link : Option Node) :
    (pool.storeNext n link).next = Function.update pool.next n link := by
  funext m
  by_cases hSame : m = n
  · subst hSame
    simp [next, storeNext]
  · simp [next, storeNext, Function.update_of_ne hSame]

theorem storeObject_next (n : Node) (constructed : Bool) :
    (pool.storeObject n constructed).next = pool.next := by
  funext m
  by_cases hSame : m = n
  · subst hSame
    simp [next, storeObject]
  · simp [next, storeObject, Function.update_of_ne hSame]

theorem storeNext_guarded (n : Node) (link : Option Node) (m : Node) :
    ((pool.storeNext n link).nodes m).guarded = (pool.nodes m).guarded := by
  by_cases hSame : m = n
  · subst hSame
    simp [storeNext, BlockNode.guarded]
  · simp [storeNext, Function.update_of_ne hSame]

theorem storeObject_guarded (n : Node) (constructed : Bool) (m : Node) :
    ((pool.storeObject n constructed).nodes m).guarded = (pool.nodes m).guarded := by
  by_cases hSame : m = n
  · subst hSame
    simp [storeObject, BlockNode.guarded]
  · simp [storeObject, Function.update_of_ne hSame]

theorem allocateFreeBlockNodes_guarded {n m : Node}
    (h : m ≠ n → (pool.nodes m).guarded = true) :
    ((pool.allocateFreeBlockNodes n).nodes m).guarded = true := by
  by_cases hSame : m = n
  · subst hSame
    simp [allocateFreeBlockNodes, BlockNode.guarded]
  · simpa [allocateFreeBlockNodes, Function.update_of_ne hSame] using h hSame

theorem allocateFreeBlockNodes_next (n : Node) :
    (pool.allocateFreeBlockNodes n).next = Function.update pool.next n none := by
  funext m
  by_cases hSame : m = n
  · subst hSame
    simp [next, allocateFreeBlockNodes]
  · simp [next, allocateFreeBlockNodes, Function.update_of_ne hSame]

variable {pool} {pool' : ObjectPoolLockFree Node} {node : Option Node} {comparand head : Indexer Node}

@[simp] theorem compareExchangeHead_eq_ok : pool.compareExchangeHead node comparand = .ok pool' ↔
    pool.mHead = comparand ∧ pool' = { pool with mHead := ⟨comparand.UID + 1, node⟩ } := by
  rw [compareExchangeHead]
  split <;> simp_all [eq_comm]

@[simp] theorem compareExchangeHead_eq_error :
    pool.compareExchangeHead node comparand = .error head ↔
      pool.mHead ≠ comparand ∧ head = pool.mHead := by
  rw [compareExchangeHead]
  split <;> simp_all [eq_comm]

end ObjectPoolLockFree

section Steps

variable (pool : ObjectPoolLockFree Node)

def RentPc.step (block : Option Node) : RentPc Node → Option (PoolAdvance Node)
  | .decrementCachedSize =>
      some ⟨{ pool with mCachedSize := pool.mCachedSize - 1 },
        .rent (if pool.mCachedSize - 1 < 0 then .incrementCachedSize else .loadNode), none⟩
  | .incrementCachedSize =>
      some ⟨{ pool with mCachedSize := pool.mCachedSize + 1 }, .rent .allocateFreeBlockNodes, none⟩
  | .allocateFreeBlockNodes => match block with
    -- throws `std::bad_alloc`
    | none => some ⟨pool, .idle, none⟩
    | some n =>
        if n ∈ pool.allocated then none
        else some ⟨pool.allocateFreeBlockNodes n, .rent (.incrementMaxCapacity n), none⟩
  | .incrementMaxCapacity newAllocNode =>
      some ⟨{ pool with mMaxCapacity := pool.mMaxCapacity + 1 }, .rent (.construct newAllocNode), none⟩
  | .loadNode => some ⟨pool, .rent (.loadUID pool.mHead.Node), none⟩
  | .loadUID node => some ⟨pool, .rent (.loadNext ⟨pool.mHead.UID, node⟩), none⟩
  | .loadNext headSnapshot => match headSnapshot.Node with
    | none => some ⟨pool, .crashed, none⟩
    | some n => some ⟨pool, .rent (.compareExchange headSnapshot (pool.next n)), none⟩
  | .compareExchange headSnapshot next => match pool.compareExchangeHead next headSnapshot with
    | .error head => some ⟨pool, .rent (.loadNext head), none⟩
    | .ok pool' => match headSnapshot.Node with
      | none => some ⟨pool', .crashed, none⟩
      | some n => some ⟨pool', .rent (.construct n), none⟩
  | .construct allocBlockNode =>
      if (pool.nodes allocBlockNode).guarded then
        some ⟨if pool.mPolicy = .CallConstructorDestructor then pool.storeObject allocBlockNode true
          else pool, .rent (.incrementUsedSize allocBlockNode), none⟩
      else some ⟨pool, .crashed, none⟩
  | .incrementUsedSize allocBlockNode =>
      some ⟨{ pool with mUsedSize := pool.mUsedSize + 1 }, .idle, some allocBlockNode⟩

def ReturnPc.step : ReturnPc Node → PoolAdvance Node
  | .destroy curNode =>
      if (pool.nodes curNode).guarded then
        ⟨if pool.mPolicy = .CallConstructorDestructor then pool.storeObject curNode false else pool,
          .giveBack (.loadNode curNode), none⟩
      else ⟨pool, .crashed, none⟩
  | .loadNode curNode => ⟨pool, .giveBack (.loadUID curNode pool.mHead.Node), none⟩
  | .loadUID curNode node => ⟨pool, .giveBack (.storeNext curNode ⟨pool.mHead.UID, node⟩), none⟩
  | .storeNext curNode headSnapshot =>
      ⟨pool.storeNext curNode headSnapshot.Node, .giveBack (.compareExchange curNode headSnapshot), none⟩
  | .compareExchange curNode headSnapshot =>
    match pool.compareExchangeHead (some curNode) headSnapshot with
    | .error head => ⟨pool, .giveBack (.storeNext curNode head), none⟩
    | .ok pool' => ⟨pool', .giveBack .incrementCachedSize, none⟩
  | .incrementCachedSize =>
      ⟨{ pool with mCachedSize := pool.mCachedSize + 1 }, .giveBack .decrementUsedSize, none⟩
  | .decrementUsedSize => ⟨{ pool with mUsedSize := pool.mUsedSize - 1 }, .idle, none⟩

def PoolPc.step (block : Option Node) : PoolPc Node → Option (PoolAdvance Node)
  | .idle => none
  | .rent pc => pc.step pool block
  | .giveBack pc => some (pc.step pool)
  | .crashed => none

end Steps

/-- A pool and its callers. `rented` are the objects that `Rent` has returned and that
have not been passed to `Return` since. -/
structure PoolSystem (Thread Node : Type) where
  pool : ObjectPoolLockFree Node
  rented : Multiset Node
  threads : Thread → PoolPc Node

namespace PoolSystem

omit [DecidableEq Thread]

/-- 1 if a step replaces `mHead`. -/
def headUpdate (s s' : PoolSystem Thread Node) : Nat :=
  if s.pool.mHead = s'.pool.mHead then 0 else 1

theorem headUpdate_le_one (s s' : PoolSystem Thread Node) : s.headUpdate s' ≤ 1 := by
  rw [headUpdate]
  split <;> decide

theorem headUpdate_same {s s' : PoolSystem Thread Node} (h : s'.pool.mHead = s.pool.mHead) :
    s.headUpdate s' = 0 := if_pos h.symm

theorem headUpdate_next {s s' : PoolSystem Thread Node}
    (h : s'.pool.mHead.UID = s.pool.mHead.UID + 1) : s.headUpdate s' = 1 := by
  apply if_neg
  intro hSame
  rw [← hSame] at h
  simp at h

end PoolSystem

inductive PoolAction (Thread Node : Type) where
  | callRent (t : Thread)
  | callReturn (t : Thread) (ptrT : Option Node)
  | run (t : Thread) (block : Option Node)

namespace PoolSystem

/-- An empty pool. The constructor leaves `mHead.UID` as it is. -/
def start (uid : UInt64) (policy : eAllocationPolicy) (nodes : Node → BlockNode Node) :
    PoolSystem Thread Node :=
  ⟨⟨⟨uid, none⟩, 0, 0, 0, policy, nodes, []⟩, 0, fun _ => .idle⟩

def goto (s : PoolSystem Thread Node) (t : Thread) (pc : PoolPc Node) : PoolSystem Thread Node :=
  { s with threads := Function.update s.threads t pc }

/-- A thread has made its step; an object that `Rent` returns is its caller's. -/
def advance (s : PoolSystem Thread Node) (t : Thread) (a : PoolAdvance Node) :
    PoolSystem Thread Node :=
  ⟨a.pool, a.rented.elim 0 (fun n => {n}) + s.rented, Function.update s.threads t a.pc⟩

/-- Callers return an object that is rented, each rented object once. -/
def step (s : PoolSystem Thread Node) : PoolAction Thread Node → Option (PoolSystem Thread Node)
  | .callRent t => match s.threads t with
    | .idle => some (s.goto t (.rent .decrementCachedSize))
    | _ => none
  | .callReturn t ptrT => match s.threads t, ptrT with
    -- `Return(nullptr)` returns false
    | .idle, none => some s
    | .idle, some n =>
        if n ∈ s.rented then
          some (({ s with rented := s.rented.erase n } : PoolSystem Thread Node).goto t
            (.giveBack (.destroy n)))
        else none
    | _, _ => none
  | .run t block => ((s.threads t).step s.pool block).map (s.advance t)

end PoolSystem

end NfNetwork.ObjectPool
