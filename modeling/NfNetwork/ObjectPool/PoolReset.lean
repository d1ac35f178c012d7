import NfNetwork.ObjectPool.OneHolder
import NfNetwork.ObjectPool.SingleThread

/-! `Clear` frees the cached blocks but leaves `mCachedSize`. From then on the counter is
too large by as many, and a `Rent` that trusts it finds no block. -/
namespace NfNetwork.ObjectPool

open Machinery

variable {Node : Type}

inductive PoolOp (Node : Type) where
  | rent
  | giveBack (ptrT : Node)
  | clear (isForce : Bool)
  | init (initialCapacity : Nat)
  | getUsedSize

/-- `Clear` and `Init`. -/
def PoolOp.resets : PoolOp Node → Bool
  | .clear _ | .init _ => true
  | _ => false

inductive PoolOutcome (Node : Type) where
  | rented (ptrT : Node)
  | returned
  | notRented
  | done
  | usedSize (size : Int)

/-- A pool and the objects that its only client has. -/
structure PoolClient (Node : Type) where
  pool : ObjectPoolLockFree Node
  rented : Multiset Node

namespace PoolClient

def new (uid : UInt64) (policy : eAllocationPolicy) (nodes : Node → BlockNode Node) :
    PoolClient Node := ⟨.new uid policy nodes, 0⟩

variable [DecidableEq Node]

def step (A : Allocator Node) (s : PoolClient Node) :
    PoolOp Node → Except Failure (PoolOutcome Node × PoolClient Node)
  | .rent => do
    let (n, pool) ← s.pool.rent A
    .ok (.rented n, ⟨pool, n ::ₘ s.rented⟩)
  | .giveBack n =>
    if n ∈ s.rented then do
      let pool ← s.pool.giveBack n
      .ok (.returned, ⟨pool, s.rented.erase n⟩)
    else .ok (.notRented, s)
  | .clear isForce => do
    let pool ← s.pool.clear isForce
    .ok (.done, ⟨pool, s.rented⟩)
  | .init initialCapacity => do
    let pool ← s.pool.init initialCapacity
    .ok (.done, ⟨pool, s.rented⟩)
  | .getUsedSize => .ok (.usedSize s.pool.mUsedSize, s)

/-- After this reset the client cannot tell the pool from a new one. -/
def LikeNew (A : Allocator Node) (uid : UInt64) (policy : eAllocationPolicy)
    (nodes : Node → BlockNode Node) (s : PoolClient Node) (reset : PoolOp Node) : Prop :=
  ∃ s', s.step A reset = .ok (.done, s') ∧
    ∀ later, outcomes (step A) s' later = outcomes (step A) (new uid policy nodes) later

/-- The blocks, and how many too many `mCachedSize` counts. -/
structure Keeps (s : PoolClient Node) (uid : UInt64) (policy : eAllocationPolicy)
    (nodes : Node → BlockNode Node) (freeList : List Node) (stale : Nat) : Prop where
  list : s.pool.FreeList freeList
  nodup : s.pool.allocated.Nodup
  places : (s.pool.allocated : Multiset Node) = freeList + s.rented
  guarded : ∀ n ∈ s.pool.allocated, (s.pool.nodes n).guarded = true
  cachedSize : s.pool.mCachedSize = freeList.length + stale
  /-- A pool that never had a block is as it was. -/
  untouched : s.pool.allocated = [] → stale = 0 → s.pool = .new uid policy nodes

end PoolClient

section Blocks

variable [DecidableEq Node] {pool : ObjectPoolLockFree Node} {p : Option Node} {list allocated : List Node} {passes : Nat}

/-- The loop of `Clear` frees the blocks of the list. -/
theorem ObjectPoolLockFree.freeBlocks_chain (h : Chain pool.next p list none) (hNodup : list.Nodup)
    (hAllocated : ∀ n ∈ list, n ∈ allocated) (hGuarded : ∀ n ∈ list, (pool.nodes n).guarded = true)
    (hPasses : list.length ≤ passes) :
    pool.freeBlocks passes p allocated = .ok (allocated.diff list) := by
  induction list generalizing p allocated passes with
  | nil =>
      obtain rfl := chain_nil.mp h
      cases passes <;> rfl
  | cons n later ih =>
      obtain ⟨rfl, hLater⟩ := h
      obtain ⟨hApart, hNodup⟩ := List.nodup_cons.mp hNodup
      cases passes with
      | zero => cases hPasses
      | succ passes =>
          rw [freeBlocks, if_pos (hAllocated n List.mem_cons_self),
            if_pos (hGuarded n List.mem_cons_self), List.diff_cons]
          refine ih hLater hNodup ?_ (fun m hm => hGuarded m (List.mem_cons_of_mem n hm))
            (Nat.le_of_succ_le_succ hPasses)
          intro m hm
          have hOther : m ≠ n := fun hSame => hApart (hSame ▸ hm)
          exact (List.mem_erase_of_ne hOther).mpr (hAllocated m (List.mem_cons_of_mem n hm))

end Blocks

namespace PoolClient

variable {A : Allocator Node} {s s' : PoolClient Node} {uid : UInt64} {policy : eAllocationPolicy}
  {nodes : Node → BlockNode Node} {freeList : List Node} {stale : Nat} {n : Node}

theorem Keeps.new (uid : UInt64) (policy : eAllocationPolicy) (nodes : Node → BlockNode Node) :
    (PoolClient.new uid policy nodes).Keeps uid policy nodes [] 0 :=
  ⟨rfl, List.nodup_nil, rfl, fun _ hMem => (nomatch hMem), rfl, fun _ _ => rfl⟩

theorem Keeps.mem_allocated (h : s.Keeps uid policy nodes freeList stale) :
    n ∈ s.pool.allocated ↔ n ∈ freeList ∨ n ∈ s.rented := by
  rw [← Multiset.mem_coe, h.places, Multiset.mem_add, Multiset.mem_coe]

/-- The free list has no block twice, and none that is rented. -/
theorem Keeps.apart (h : s.Keeps uid policy nodes freeList stale) :
    freeList.Nodup ∧ ∀ n ∈ freeList, n ∉ s.rented := by
  have hNodup := Multiset.coe_nodup.mpr h.nodup
  rw [h.places] at hNodup
  obtain ⟨hList, _, hApart⟩ := Multiset.nodup_add.mp hNodup
  exact ⟨Multiset.coe_nodup.mp hList, fun n hn => Multiset.disjoint_left.mp hApart hn⟩

theorem Keeps.rented_nodup (h : s.Keeps uid policy nodes freeList stale) : s.rented.Nodup := by
  have hNodup := Multiset.coe_nodup.mpr h.nodup
  rw [h.places] at hNodup
  exact (Multiset.nodup_add.mp hNodup).2.1

/-- A pool that has a block keeps what it keeps if it changes no list and no guard. -/
theorem Keeps.quiet {pool : ObjectPoolLockFree Node} (h : s.Keeps uid policy nodes freeList stale)
    (hMine : n ∈ s.pool.allocated) (hHead : pool.mHead = s.pool.mHead)
    (hNext : pool.next = s.pool.next) (hAllocated : pool.allocated = s.pool.allocated)
    (hSize : pool.mCachedSize = s.pool.mCachedSize)
    (hGuarded : ∀ m, (pool.nodes m).guarded = (s.pool.nodes m).guarded) :
    (⟨pool, s.rented⟩ : PoolClient Node).Keeps uid policy nodes freeList stale := by
  refine ⟨?_, hAllocated ▸ h.nodup, hAllocated ▸ h.places, ?_, hSize.trans h.cachedSize, ?_⟩
  · rw [ObjectPoolLockFree.FreeList, hHead, hNext]
    exact h.list
  · intro m hm
    rw [hAllocated] at hm
    rw [hGuarded]
    exact h.guarded m hm
  · intro hNone
    rw [hAllocated] at hNone
    rw [hNone] at hMine
    cases hMine

/-- With nothing cached and nothing rented the pool never had a block. -/
theorem Keeps.eq_new (h : s.Keeps uid policy nodes freeList stale) (hReturned : s.rented = 0)
    (hCached : s.pool.mCachedSize = 0) : s = PoolClient.new uid policy nodes := by
  have hSize := h.cachedSize
  rw [hCached] at hSize
  obtain rfl : freeList = [] := List.eq_nil_of_length_eq_zero (by omega)
  have hPlaces := h.places
  rw [hReturned, Multiset.coe_nil, add_zero, Multiset.coe_eq_zero] at hPlaces
  obtain ⟨pool, rented⟩ := s
  obtain rfl : rented = 0 := hReturned
  exact congrArg (fun pool => (⟨pool, 0⟩ : PoolClient Node)) (h.untouched hPlaces (by omega))

variable [DecidableEq Node]

/-- `Clear` leaves the counter with the blocks it freed. -/
theorem Keeps.clear (h : s.Keeps uid policy nodes freeList stale) (isForce : Bool)
    (hReturned : isForce = true ∨ s.pool.mUsedSize = 0) :
    ∃ pool, s.pool.clear isForce = .ok pool ∧ pool.mHead.Node = none ∧ pool.mMaxCapacity = 0 ∧
      pool.mUsedSize = 0 ∧
      (⟨pool, s.rented⟩ : PoolClient Node).Keeps uid policy nodes [] (freeList.length + stale) := by
  have hLength : freeList.length ≤ s.pool.allocated.length := by
    have hCard := congrArg Multiset.card h.places
    simp only [Multiset.card_add, Multiset.coe_card] at hCard
    omega
  have hFreed := ObjectPoolLockFree.freeBlocks_chain h.list h.apart.1
    (fun n hn => h.mem_allocated.mpr (.inl hn))
    (fun n hn => h.guarded n (h.mem_allocated.mpr (.inl hn))) hLength
  have hClear : s.pool.clear isForce = .ok
      { s.pool with
        mHead := { s.pool.mHead with Node := none }
        mMaxCapacity := 0
        mUsedSize := 0
        allocated := s.pool.allocated.diff freeList } := by
    rw [ObjectPoolLockFree.clear, if_neg, hFreed]
    · rfl
    · obtain rfl | hUsed := hReturned <;> simp_all
  refine ⟨_, hClear, rfl, rfl, rfl, rfl, h.nodup.diff, ?_, ?_, ?_, ?_⟩
  · rw [← Multiset.coe_sub, h.places, add_tsub_cancel_left, Multiset.coe_nil, zero_add]
  · intro n hn
    exact h.guarded n (List.diff_subset _ _ hn)
  · rw [h.cachedSize, List.length_nil]
    omega
  · intro hNone hStale
    obtain rfl : freeList = [] := List.eq_nil_of_length_eq_zero (by omega)
    have hNew := h.untouched (by simpa using hNone) (by simpa using hStale)
    rw [hNew]
    rfl

/-- `Init` sets what `Clear` has just set. -/
theorem Keeps.init (h : s.Keeps uid policy nodes freeList stale) (hReturned : s.pool.mUsedSize = 0)
    (initialCapacity : Nat) :
    ∃ pool, s.pool.init initialCapacity = .ok pool ∧ pool.mHead.Node = none ∧ pool.mUsedSize = 0 ∧
      (⟨pool, s.rented⟩ : PoolClient Node).Keeps uid policy nodes [] (freeList.length + stale) := by
  obtain ⟨pool, hClear, hHead, hCapacity, hUsed, hKeeps⟩ := h.clear false (.inr hReturned)
  refine ⟨pool, ?_, hHead, hUsed, hKeeps⟩
  have hSame : { pool with mHead := { pool.mHead with Node := none }, mMaxCapacity := 0, mUsedSize := 0 } =
      pool := by
    obtain ⟨⟨uid, head⟩, capacity, cached, used, policy, nodes, allocated⟩ := pool
    simp_all
  rw [ObjectPoolLockFree.init, hClear]
  change (if initialCapacity = 0 then Except.ok pool else Except.ok _) = _
  rw [hSame, ite_self]

/-- `Rent` ends the same way for a cached and for a new block. -/
theorem Keeps.rentBlock (h : s.Keeps uid policy nodes freeList stale) (hRented : n ∈ s.rented) :
    ∃ pool, s.pool.rentBlock n = .ok (n, pool) ∧ pool.mUsedSize = s.pool.mUsedSize + 1 ∧
      (⟨pool, s.rented⟩ : PoolClient Node).Keeps uid policy nodes freeList stale := by
  have hMine := h.mem_allocated.mpr (.inr hRented)
  rw [ObjectPoolLockFree.rentBlock, if_pos (h.guarded n hMine)]
  split
  · exact ⟨_, rfl, rfl, h.quiet hMine rfl (s.pool.storeObject_next n true) rfl rfl
      (s.pool.storeObject_guarded n true)⟩
  · exact ⟨_, rfl, rfl, h.quiet hMine rfl rfl rfl rfl fun _ => rfl⟩

/-- No block is cached, and `mCachedSize` says so. -/
theorem Keeps.rent_new (h : s.Keeps uid policy nodes [] 0) :
    ∃ pool, s.pool.rent A = .ok (A.malloc s.pool.allocated, pool) ∧
      A.malloc s.pool.allocated ∉ s.rented ∧ pool.mUsedSize = s.pool.mUsedSize + 1 ∧
      (⟨pool, A.malloc s.pool.allocated ::ₘ s.rented⟩ : PoolClient Node).Keeps uid policy nodes [] 0 := by
  have hNone : s.pool.mCachedSize = 0 := by simpa using h.cachedSize
  have hFresh := A.fresh s.pool.allocated
  rw [ObjectPoolLockFree.rent, if_pos (by omega)]
  generalize A.malloc s.pool.allocated = n at *
  let allocated : PoolClient Node := ⟨{ s.pool.allocateFreeBlockNodes n with
    mMaxCapacity := s.pool.mMaxCapacity + 1 }, n ::ₘ s.rented⟩
  have hKeeps : allocated.Keeps uid policy nodes [] 0 := by
    refine ⟨h.list, List.nodup_cons.mpr ⟨hFresh, h.nodup⟩, ?_, ?_, h.cachedSize, ?_⟩
    · have hPlaces := h.places
      rw [Multiset.coe_nil, zero_add] at hPlaces ⊢
      exact congrArg (n ::ₘ ·) hPlaces
    · intro m hm
      apply s.pool.allocateFreeBlockNodes_guarded
      intro hOther
      exact h.guarded m (List.mem_of_ne_of_mem hOther hm)
    · intro hNil
      cases hNil
  obtain ⟨pool, hOk, hUsed, hAfter⟩ := hKeeps.rentBlock (Multiset.mem_cons_self n s.rented)
  exact ⟨pool, hOk, fun hRented => hFresh (h.mem_allocated.mpr (.inr hRented)), hUsed, hAfter⟩

/-- The first cached block is rented. -/
theorem Keeps.rent_cached {later : List Node} (h : s.Keeps uid policy nodes (n :: later) stale) :
    ∃ pool, s.pool.rent A = .ok (n, pool) ∧ n ∉ s.rented ∧
      pool.mUsedSize = s.pool.mUsedSize + 1 ∧
      (⟨pool, n ::ₘ s.rented⟩ : PoolClient Node).Keeps uid policy nodes later stale := by
  have hCached := h.cachedSize
  obtain ⟨hHead, hLater⟩ := h.list
  rw [List.length_cons] at hCached
  have hMem : n ∈ s.pool.allocated := h.mem_allocated.mpr (.inl List.mem_cons_self)
  rw [ObjectPoolLockFree.rent, if_neg (by omega), hHead]
  let taken : PoolClient Node := ⟨{ s.pool with
    mCachedSize := s.pool.mCachedSize - 1
    mHead := ⟨s.pool.mHead.UID + 1, s.pool.next n⟩ }, n ::ₘ s.rented⟩
  have hKeeps : taken.Keeps uid policy nodes later stale := by
    refine ⟨hLater, h.nodup, ?_, h.guarded, ?_, ?_⟩
    · refine h.places.trans ?_
      rw [← Multiset.cons_coe, Multiset.cons_add, Multiset.add_cons]
    · change s.pool.mCachedSize - 1 = _
      omega
    · intro hNone
      change s.pool.allocated = [] at hNone
      rw [hNone] at hMem
      cases hMem
  obtain ⟨pool, hOk, hUsed, hAfter⟩ := hKeeps.rentBlock (Multiset.mem_cons_self n s.rented)
  exact ⟨pool, hOk, h.apart.2 n List.mem_cons_self, hUsed, hAfter⟩

/-- `Rent` finds a block unless the counter sends it to an empty list. -/
theorem Keeps.rent (h : s.Keeps uid policy nodes freeList stale)
    (hFound : stale = 0 ∨ freeList ≠ []) :
    ∃ n pool freeList', s.pool.rent A = .ok (n, pool) ∧ n ∉ s.rented ∧
      pool.mUsedSize = s.pool.mUsedSize + 1 ∧
      (⟨pool, n ::ₘ s.rented⟩ : PoolClient Node).Keeps uid policy nodes freeList' stale := by
  cases freeList with
  | nil =>
      obtain rfl : stale = 0 := by simpa using hFound
      obtain ⟨pool, hOk, hApart, hUsed, hAfter⟩ := h.rent_new (A := A)
      exact ⟨_, pool, [], hOk, hApart, hUsed, hAfter⟩
  | cons n later =>
      obtain ⟨pool, hOk, hApart, hUsed, hAfter⟩ := h.rent_cached (A := A)
      exact ⟨n, pool, later, hOk, hApart, hUsed, hAfter⟩

/-- A counter that is too large sends `Rent` to an empty list. -/
theorem Keeps.rent_fails (h : s.Keeps uid policy nodes [] stale) (hStale : stale ≠ 0) :
    s.pool.rent A = .error .assertion := by
  have hCached := h.cachedSize
  have hHead : s.pool.mHead.Node = none := h.list
  rw [List.length_nil] at hCached
  rw [ObjectPoolLockFree.rent, if_neg (by omega), hHead]

/-- A returned block is the first cached one. -/
theorem Keeps.giveBack (h : s.Keeps uid policy nodes freeList stale) (hRented : n ∈ s.rented) :
    ∃ pool, s.pool.giveBack n = .ok pool ∧ pool.mUsedSize = s.pool.mUsedSize - 1 ∧
      (⟨pool, s.rented.erase n⟩ : PoolClient Node).Keeps uid policy nodes (n :: freeList) stale := by
  have hMine := h.mem_allocated.mpr (.inr hRented)
  have hApart : n ∉ freeList := fun hMem => h.apart.2 n hMem hRented
  have hLinked : ∀ pool : ObjectPoolLockFree Node, (⟨pool, s.rented⟩ : PoolClient Node).Keeps uid policy
      nodes freeList stale → pool.mUsedSize = s.pool.mUsedSize → pool.allocated = s.pool.allocated →
      (⟨{ pool.storeNext n pool.mHead.Node with
        mHead := ⟨pool.mHead.UID + 1, some n⟩
        mCachedSize := pool.mCachedSize + 1
        mUsedSize := pool.mUsedSize - 1 }, s.rented.erase n⟩ : PoolClient Node).Keeps uid policy nodes
        (n :: freeList) stale := by
    intro pool hKeeps hUsed hAllocated
    refine ⟨⟨rfl, ?_⟩, hKeeps.nodup, ?_, ?_, ?_, ?_⟩
    · change Chain (pool.storeNext n pool.mHead.Node).next
        ((pool.storeNext n pool.mHead.Node).next n) freeList none
      rw [pool.storeNext_next, Function.update_self]
      exact hKeeps.list.update hApart _
    · refine hKeeps.places.trans ?_
      rw [← Multiset.cons_coe, Multiset.cons_add, ← Multiset.add_cons, Multiset.cons_erase hRented]
    · intro m hm
      exact (pool.storeNext_guarded n _ m).trans (hKeeps.guarded m hm)
    · change pool.mCachedSize + 1 = _
      rw [hKeeps.cachedSize, List.length_cons]
      omega
    · intro hNone
      change pool.allocated = [] at hNone
      rw [hAllocated] at hNone
      rw [hNone] at hMine
      cases hMine
  rw [ObjectPoolLockFree.giveBack, if_pos (h.guarded n hMine)]
  split
  · exact ⟨_, rfl, rfl, hLinked _ (h.quiet hMine rfl (s.pool.storeObject_next n false) rfl rfl
      (s.pool.storeObject_guarded n false)) rfl rfl⟩
  · exact ⟨_, rfl, rfl, hLinked _ h rfl rfl⟩

/-- Nothing but `Clear` and `Init` changes how many blocks too many are counted. -/
theorem Keeps.serve {op : PoolOp Node} (h : s.Keeps uid policy nodes freeList stale)
    (hOp : op.resets = false) (hFound : stale = 0 ∨ freeList ≠ [] ∨ op ≠ .rent) :
    ∃ outcome s' freeList', s.step A op = .ok (outcome, s') ∧
      s'.Keeps uid policy nodes freeList' stale := by
  cases op with
  | rent =>
      cases freeList with
      | nil =>
          obtain rfl : stale = 0 := by simpa using hFound
          obtain ⟨pool, hOk, _, _, hAfter⟩ := h.rent_new (A := A)
          rw [PoolClient.step, hOk]
          exact ⟨_, _, [], rfl, hAfter⟩
      | cons n later =>
          obtain ⟨pool, hOk, _, _, hAfter⟩ := h.rent_cached (A := A)
          rw [PoolClient.step, hOk]
          exact ⟨_, _, later, rfl, hAfter⟩
  | giveBack n =>
      rw [PoolClient.step]
      split
      · rename_i hRented
        obtain ⟨pool, hOk, _, hAfter⟩ := h.giveBack hRented
        rw [hOk]
        exact ⟨_, _, n :: freeList, rfl, hAfter⟩
      · exact ⟨_, _, freeList, rfl, h⟩
  | clear isForce | init initialCapacity => cases hOp
  | getUsedSize => exact ⟨_, _, freeList, rfl, h⟩

/-- `Clear` and `Init` free the cached blocks and go on counting them. -/
theorem Keeps.reset {op : PoolOp Node} {outcome : PoolOutcome Node}
    (h : s.Keeps uid policy nodes freeList stale) (hOp : op.resets = true)
    (hStep : s.step A op = .ok (outcome, s')) :
    s'.Keeps uid policy nodes [] (freeList.length + stale) := by
  cases op with
  | clear isForce =>
      by_cases hReturned : isForce = true ∨ s.pool.mUsedSize = 0
      · obtain ⟨pool, hOk, _, _, _, hAfter⟩ := h.clear isForce hReturned
        rw [PoolClient.step, hOk] at hStep
        cases hStep
        exact hAfter
      · rw [PoolClient.step, ObjectPoolLockFree.clear, if_pos (by simpa using hReturned)] at hStep
        cases hStep
  | init initialCapacity =>
      by_cases hReturned : s.pool.mUsedSize = 0
      · obtain ⟨pool, hOk, _, _, hAfter⟩ := h.init hReturned initialCapacity
        rw [PoolClient.step, hOk] at hStep
        cases hStep
        exact hAfter
      · rw [PoolClient.step, ObjectPoolLockFree.init, ObjectPoolLockFree.clear,
          if_pos (by simpa using hReturned)] at hStep
        cases hStep
  | _ => cases hOp

/-- What the client of a pool relies on. -/
def Holds (uid : UInt64) (policy : eAllocationPolicy) (nodes : Node → BlockNode Node)
    (s : PoolClient Node) : Prop :=
  ∃ freeList stale, s.Keeps uid policy nodes freeList stale

theorem Holds.step {op : PoolOp Node} (h : s.Holds uid policy nodes)
    (hStep : Serves (PoolClient.step A) s op s') : s'.Holds uid policy nodes := by
  obtain ⟨freeList, stale, h⟩ := h
  obtain ⟨outcome, hStep⟩ := hStep
  cases hOp : op.resets with
  | true => exact ⟨[], _, h.reset hOp hStep⟩
  | false =>
      by_cases hFound : stale = 0 ∨ freeList ≠ [] ∨ op ≠ .rent
      · obtain ⟨_, after, freeList', hOk, hAfter⟩ := h.serve (A := A) hOp hFound
        cases hOk.symm.trans hStep
        exact ⟨freeList', stale, hAfter⟩
      · simp only [not_or, ne_eq, Decidable.not_not] at hFound
        obtain ⟨hStale, rfl, hRent⟩ := hFound
        obtain rfl : op = .rent := Classical.not_not.mp hRent
        rw [PoolClient.step, h.rent_fails hStale] at hStep
        cases hStep

/-- The counter of this pool is right. -/
def Counts (uid : UInt64) (policy : eAllocationPolicy) (nodes : Node → BlockNode Node)
    (s : PoolClient Node) : Prop :=
  ∃ freeList, s.Keeps uid policy nodes freeList 0

theorem Counts.serve {op : PoolOp Node} (h : s.Counts uid policy nodes) (hOp : op.resets = false) :
    ∃ outcome s', s.step A op = .ok (outcome, s') ∧ s'.Counts uid policy nodes := by
  obtain ⟨freeList, h⟩ := h
  obtain ⟨outcome, s', freeList', hOk, hAfter⟩ := h.serve (A := A) hOp (.inl rfl)
  exact ⟨outcome, s', hOk, freeList', hAfter⟩

/-- Until it is cleared, a pool serves every `Rent`. -/
theorem new_serves {ops : List (PoolOp Node)} (hOps : ∀ op ∈ ops, op.resets = false)
    (failure : Failure) :
    .error failure ∉ outcomes (PoolClient.step A) (PoolClient.new uid policy nodes) ops := by
  have hNew : (PoolClient.new uid policy nodes).Counts uid policy nodes :=
    ⟨[], Keeps.new uid policy nodes⟩
  exact outcomes_ne_error (fun hCounts hOp => hCounts.serve hOp) hNew hOps failure

/-- Once everything is returned, `Clear` and `Init` leave a pool like a new one exactly if
`mCachedSize` is zero. -/
theorem likeNew_iff {reset : PoolOp Node}
    (h : Reachable (Serves (PoolClient.step A)) (fun _ _ => True) (PoolClient.new uid policy nodes) s)
    (hReturned : s.rented = 0)
    (hReset : reset.resets = true) :
    s.LikeNew A uid policy nodes reset ↔ s.pool.mCachedSize = 0 := by
  obtain ⟨freeList, stale, hKeeps⟩ : s.Holds uid policy nodes :=
    h.invariant ⟨[], 0, Keeps.new uid policy nodes⟩ fun _ hHolds _ hStep => hHolds.step hStep
  constructor
  · intro hLike
    obtain ⟨s', hStep, hSame⟩ := hLike
    have hAfter := hKeeps.reset hReset hStep
    by_contra hCached
    have hSize := hKeeps.cachedSize
    have hNow := hSame [.rent]
    obtain ⟨pool, hOk, _⟩ := (Keeps.new uid policy nodes).rent_new (A := A)
    rw [outcomes, outcomes, PoolClient.step, hAfter.rent_fails (by omega), PoolClient.step, hOk] at hNow
    cases hNow
  · intro hCached
    obtain rfl := hKeeps.eq_new hReturned hCached
    refine ⟨PoolClient.new uid policy nodes, ?_, fun _ => rfl⟩
    cases reset with
    | clear isForce => cases isForce <;> rfl
    | init initialCapacity => cases initialCapacity <;> rfl
    | _ => cases hReset

end PoolClient

end NfNetwork.ObjectPool
