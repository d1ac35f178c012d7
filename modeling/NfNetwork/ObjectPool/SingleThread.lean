import NfNetwork.Machinery.Chain
import NfNetwork.Machinery.Client
import NfNetwork.ObjectPool.ObjectPoolLockFree
import Mathlib.Algebra.Order.BigOperators.Group.List
import Mathlib.Algebra.Order.Group.Nat
import Mathlib.Data.List.Perm.Basic

/-! `ObjectPoolLockFree` in the hands of one thread: no exchange fails, and an operation
is a function of the pool. `Init` and `Clear` are only called so. -/
namespace NfNetwork.ObjectPool

open Machinery

/-- What ends the program. `invalidAccess` is a block freed twice or used after it. -/
inductive Failure where
  | assertion
  | logicError
  | invalidAccess
deriving DecidableEq

/-- `malloc` with memory left: a block that is not in use. -/
structure Allocator (Node : Type) where
  malloc : List Node → Node
  fresh : ∀ allocated, malloc allocated ∉ allocated

/-- Past the sum of the blocks no block is in use. -/
theorem sum_succ_not_mem (allocated : List Nat) : allocated.sum + 1 ∉ allocated := by
  intro hMem
  have hLe := List.single_le_sum (fun _ _ => Nat.zero_le _) _ hMem
  omega

variable {Node : Type} [DecidableEq Node]

namespace ObjectPoolLockFree

/-- What the constructor leaves; it does not set `mHead.UID`. -/
def new (uid : UInt64) (policy : eAllocationPolicy) (nodes : Node → BlockNode Node) :
    ObjectPoolLockFree Node := ⟨⟨uid, none⟩, 0, 0, 0, policy, nodes, []⟩

section Operations

variable (A : Allocator Node) (pool : ObjectPoolLockFree Node)

/-- The end of `Rent`. -/
def rentBlock (allocBlockNode : Node) : Except Failure (Node × ObjectPoolLockFree Node) :=
  if (pool.nodes allocBlockNode).guarded then
    let pool := if pool.mPolicy = .CallConstructorDestructor then pool.storeObject allocBlockNode true
      else pool
    .ok (allocBlockNode, { pool with mUsedSize := pool.mUsedSize + 1 })
  else .error .assertion

def rent : Except Failure (Node × ObjectPoolLockFree Node) :=
  if pool.mCachedSize - 1 < 0 then
    let n := A.malloc pool.allocated
    let pool := pool.allocateFreeBlockNodes n
    { pool with mMaxCapacity := pool.mMaxCapacity + 1 }.rentBlock n
  else match pool.mHead.Node with
    | none => .error .assertion
    | some n =>
      { pool with
        mCachedSize := pool.mCachedSize - 1
        mHead := ⟨pool.mHead.UID + 1, pool.next n⟩ }.rentBlock n

def giveBack (curNode : Node) : Except Failure (ObjectPoolLockFree Node) :=
  if (pool.nodes curNode).guarded then
    let pool := if pool.mPolicy = .CallConstructorDestructor then pool.storeObject curNode false
      else pool
    .ok { pool.storeNext curNode pool.mHead.Node with
      mHead := ⟨pool.mHead.UID + 1, some curNode⟩
      mCachedSize := pool.mCachedSize + 1
      mUsedSize := pool.mUsedSize - 1 }
  else .error .assertion

/-- The loop of `Clear`: free the blocks from `willRemoveNode` on. Each is freed once, so
as many passes as there are blocks are enough. -/
def freeBlocks : Nat → Option Node → List Node → Except Failure (List Node)
  | _, none, allocated => .ok allocated
  | 0, some _, _ => .error .invalidAccess
  | passes + 1, some n, allocated =>
    if n ∈ allocated then
      if (pool.nodes n).guarded then freeBlocks passes (pool.next n) (allocated.erase n)
      else .error .assertion
    else .error .invalidAccess

def clear (isForce : Bool) : Except Failure (ObjectPoolLockFree Node) :=
  if !isForce && pool.mUsedSize ≠ 0 then .error .logicError
  else do
    let allocated ← pool.freeBlocks pool.allocated.length pool.mHead.Node pool.allocated
    .ok { pool with
      mHead := { pool.mHead with Node := none }
      mMaxCapacity := 0
      mUsedSize := 0
      allocated := allocated }

def init (initialCapacity : Nat) : Except Failure (ObjectPoolLockFree Node) := do
  let pool ← pool.clear false
  if initialCapacity = 0 then .ok pool
  else .ok { pool with mHead := { pool.mHead with Node := none }, mMaxCapacity := 0, mUsedSize := 0 }

end Operations

/-- The threads of the step model, one of which runs alone, do the same. -/
theorem exec_rent {Thread : Type} [DecidableEq Thread] {A : Allocator Node}
    {pool pool' : ObjectPoolLockFree Node} {rented : Multiset Node} {threads : Thread → PoolPc Node}
    {t : Thread} {n : Node} (hIdle : threads t = .idle) (h : pool.rent A = .ok (n, pool')) :
    ∃ steps, exec PoolSystem.step ⟨pool, rented, threads⟩
      (.callRent t :: List.replicate steps (.run t (some (A.malloc pool.allocated)))) =
        some ⟨pool', n ::ₘ rented, threads⟩ := by
  rw [rent] at h
  split at h
  · rename_i hNone
    refine ⟨6, ?_⟩
    rw [rentBlock] at h
    split at h
    · rename_i hGuarded
      cases h
      simp [exec, PoolSystem.step, PoolSystem.goto, PoolSystem.advance, hIdle, PoolPc.step, RentPc.step,
        List.replicate, hNone, A.fresh, hGuarded]
    · cases h
  · rename_i hCached
    obtain ⟨⟨uid, head⟩, capacity, cached, used, policy, nodes, allocated⟩ := pool
    cases head with
    | none => cases h
    | some first =>
        refine ⟨7, ?_⟩
        dsimp only [rentBlock] at h
        split at h
        · rename_i hGuarded
          cases h
          dsimp only at hCached hGuarded
          simp [exec, PoolSystem.step, PoolSystem.goto, PoolSystem.advance, hIdle, PoolPc.step,
            RentPc.step, List.replicate, hCached, hGuarded, compareExchangeHead, next]
        · cases h

theorem exec_giveBack {Thread : Type} [DecidableEq Thread]
    {pool pool' : ObjectPoolLockFree Node} {rented : Multiset Node} {threads : Thread → PoolPc Node}
    {t : Thread} {n : Node} (hIdle : threads t = .idle) (hRented : n ∈ rented)
    (h : pool.giveBack n = .ok pool') :
    exec PoolSystem.step ⟨pool, rented, threads⟩
      (.callReturn t (some n) :: List.replicate 7 (.run t none)) =
        some ⟨pool', rented.erase n, threads⟩ := by
  rw [giveBack] at h
  split at h
  · rename_i hGuarded
    obtain ⟨⟨uid, head⟩, capacity, cached, used, policy, nodes, allocated⟩ := pool
    cases h
    dsimp only at hGuarded
    cases policy <;>
      simp [exec, PoolSystem.step, PoolSystem.goto, PoolSystem.advance, hIdle, hRented, PoolPc.step,
        ReturnPc.step, List.replicate, hGuarded, compareExchangeHead, storeObject, storeNext]
  · cases h

end ObjectPoolLockFree

end NfNetwork.ObjectPool
