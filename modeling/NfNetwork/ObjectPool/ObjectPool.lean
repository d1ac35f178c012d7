import NfNetwork.ObjectPool.SingleThread

/-! `ObjectPool`, which no two threads share. The chain of free blocks is a list with
`mFreeBlockNodeHeader` at its head; `allocated` are the blocks `malloc` has given. -/
namespace NfNetwork

structure ObjectPool (Node : Type) where
  mMaxCapacity : Int
  mUsedSize : Int
  mCachedSize : Int
  freeBlockNodes : List Node
  allocated : List Node

namespace ObjectPool

variable {Node : Type} (A : Allocator Node)

/-- `AllocateFreeBlockNodes` in front of the chain. -/
def allocateFreeBlockNodes (pool : ObjectPool Node) : Nat → ObjectPool Node
  | 0 => pool
  | blockCount + 1 =>
    let n := A.malloc pool.allocated
    allocateFreeBlockNodes
      { pool with freeBlockNodes := n :: pool.freeBlockNodes, allocated := n :: pool.allocated }
      blockCount

def new (initialCapacity : Nat) : ObjectPool Node :=
  allocateFreeBlockNodes A ⟨initialCapacity, 0, initialCapacity, [], []⟩ initialCapacity

/-- `Rent` without the constructor. A block it allocates itself is never counted as cached. -/
def rent (pool : ObjectPool Node) : Node × ObjectPool Node :=
  match pool.freeBlockNodes with
  | [] =>
    let n := A.malloc pool.allocated
    (n, { pool with
      mMaxCapacity := pool.mMaxCapacity + 1
      mUsedSize := pool.mUsedSize + 1
      mCachedSize := pool.mCachedSize - 1
      allocated := n :: pool.allocated })
  | n :: next =>
    (n, { pool with
      mUsedSize := pool.mUsedSize + 1
      mCachedSize := pool.mCachedSize - 1
      freeBlockNodes := next })

/-- `Return`. -/
def giveBack (pool : ObjectPool Node) (n : Node) : ObjectPool Node :=
  { pool with
    mUsedSize := pool.mUsedSize - 1
    mCachedSize := pool.mCachedSize + 1
    freeBlockNodes := n :: pool.freeBlockNodes }

/-- The blocks in use are apart from the free ones, which are in the chain once each. -/
structure Lends (pool : ObjectPool Node) (used : Node → Prop) : Prop where
  nodup : pool.freeBlockNodes.Nodup
  apart : ∀ {n}, used n → n ∉ pool.freeBlockNodes
  freeAllocated : ∀ {n}, n ∈ pool.freeBlockNodes → n ∈ pool.allocated
  usedAllocated : ∀ {n}, used n → n ∈ pool.allocated

variable {A} {pool : ObjectPool Node} {used used' : Node → Prop}

theorem Lends.congr (h : pool.Lends used) (hUsed : ∀ n, used' n ↔ used n) : pool.Lends used' :=
  ⟨h.nodup, fun hn => h.apart ((hUsed _).mp hn), h.freeAllocated,
    fun hn => h.usedAllocated ((hUsed _).mp hn)⟩

theorem Lends.allocateFreeBlockNodes (h : pool.Lends used) (blockCount : Nat) :
    (allocateFreeBlockNodes A pool blockCount).Lends used := by
  induction blockCount generalizing pool with
  | zero => exact h
  | succ blockCount ih =>
      have hFresh := A.fresh pool.allocated
      refine ih ⟨?_, ?_, ?_, ?_⟩
      · exact List.nodup_cons.mpr ⟨fun hMem => hFresh (h.freeAllocated hMem), h.nodup⟩
      · intro n hUsed hMem
        cases List.mem_cons.mp hMem with
        | inl hNew => exact hFresh (hNew ▸ h.usedAllocated hUsed)
        | inr hOld => exact h.apart hUsed hOld
      · intro n hMem
        exact List.mem_cons.mpr ((List.mem_cons.mp hMem).imp_right h.freeAllocated)
      · intro n hUsed
        exact List.mem_cons_of_mem _ (h.usedAllocated hUsed)

theorem new_lends (initialCapacity : Nat) :
    (new A initialCapacity).Lends fun _ => False := by
  apply Lends.allocateFreeBlockNodes
  exact ⟨List.nodup_nil, False.elim, fun hMem => (nomatch hMem), False.elim⟩

/-- The block `Rent` gives was not in use. -/
theorem Lends.rent (h : pool.Lends used) :
    ¬ used (pool.rent A).1 ∧
      (pool.rent A).2.Lends fun n => used n ∨ n = (pool.rent A).1 := by
  unfold ObjectPool.rent
  cases hFree : pool.freeBlockNodes with
  | nil =>
      have hFresh := A.fresh pool.allocated
      refine ⟨fun hUsed => hFresh (h.usedAllocated hUsed), ?_, ?_, ?_, ?_⟩
      · simp
      · simp
      · simp
      · rintro n (hUsed | rfl)
        · exact List.mem_cons_of_mem _ (h.usedAllocated hUsed)
        · exact List.mem_cons_self ..
  | cons first next =>
      have hNodup := h.nodup
      rw [hFree] at hNodup
      have hFirst : first ∈ pool.freeBlockNodes := hFree ▸ List.mem_cons_self ..
      have hNext {n : Node} (hMem : n ∈ next) : n ∈ pool.freeBlockNodes :=
        hFree ▸ List.mem_cons_of_mem first hMem
      refine ⟨fun hUsed => h.apart hUsed hFirst, (List.nodup_cons.mp hNodup).2, ?_, ?_, ?_⟩
      · rintro n (hUsed | rfl) hMem
        · exact h.apart hUsed (hNext hMem)
        · exact (List.nodup_cons.mp hNodup).1 hMem
      · exact fun hMem => h.freeAllocated (hNext hMem)
      · rintro n (hUsed | rfl)
        · exact h.usedAllocated hUsed
        · exact h.freeAllocated hFirst

/-- A block in use comes back to the chain, where it was not. -/
theorem Lends.giveBack (h : pool.Lends used) {n : Node} (hUsed : used n) :
    (pool.giveBack n).Lends fun m => used m ∧ m ≠ n := by
  refine ⟨List.nodup_cons.mpr ⟨h.apart hUsed, h.nodup⟩, ?_, ?_, fun hOther => h.usedAllocated hOther.1⟩
  · intro m hOther hMem
    cases List.mem_cons.mp hMem with
    | inl hSame => exact hOther.2 hSame
    | inr hOld => exact h.apart hOther.1 hOld
  · intro m hMem
    cases List.mem_cons.mp hMem with
    | inl hSame =>
        rw [hSame]
        exact h.usedAllocated hUsed
    | inr hOld => exact h.freeAllocated hOld

end ObjectPool

end NfNetwork
