import NfNetwork.Machinery.Chain
import NfNetwork.ObjectPool.ObjectPool
import Mathlib.Algebra.Order.BigOperators.Group.List
import Mathlib.Algebra.Order.Group.Nat

/-! `ObjectPool` with its chain of free blocks in memory, and the three counters that shadow the
chain. A block that `Rent` allocates itself is counted as taken from the cache, and `Clear` adds to
the counters what it should set. -/
namespace NfNetwork

open Machinery ObjectPool

structure LinkedObjectPool (Node : Type) where
  mMaxCapacity : Int
  mUsedSize : Int
  mCachedSize : Int
  mFreeBlockNodeHeader : Option Node
  next : Node → Option Node
  allocated : List Node

namespace LinkedObjectPool

variable {Node : Type} [DecidableEq Node] (A : Allocator Node) (pool : LinkedObjectPool Node)

/-- The loop of `AllocateFreeBlockNodes`, from the current `prevBlockNode`. -/
def linkBlockNodes (pool : LinkedObjectPool Node) (prevBlockNode : Option Node) :
    Nat → Option Node × LinkedObjectPool Node
  | 0 => (prevBlockNode, pool)
  | blockCount + 1 =>
    let currBlockNode := A.malloc pool.allocated
    linkBlockNodes
      { pool with
        next := Function.update pool.next currBlockNode prevBlockNode
        allocated := currBlockNode :: pool.allocated }
      (some currBlockNode) blockCount

def allocateFreeBlockNodes (blockCount : Nat) : Option Node × LinkedObjectPool Node :=
  linkBlockNodes A pool none blockCount

/-- The constructor. Its blocks come from memory in which anything may stand. -/
def new (memory : Node → Option Node) (initialCapacity : Nat) : LinkedObjectPool Node :=
  let (header, pool) := allocateFreeBlockNodes A ⟨0, 0, 0, none, memory, []⟩ initialCapacity
  { pool with
    mFreeBlockNodeHeader := header
    mMaxCapacity := pool.mMaxCapacity + initialCapacity
    mCachedSize := pool.mCachedSize + initialCapacity }

/-- The first lines of `Rent`. -/
def grow : LinkedObjectPool Node := match pool.mFreeBlockNodeHeader with
  | some _ => pool
  | none =>
    let (header, pool) := pool.allocateFreeBlockNodes A 1
    { pool with mFreeBlockNodeHeader := header, mMaxCapacity := pool.mMaxCapacity + 1 }

def rent : Except Failure (Node × LinkedObjectPool Node) :=
  let pool := pool.grow A
  match pool.mFreeBlockNodeHeader with
  | none => .error .invalidAccess
  | some n => .ok (n, { pool with
      mFreeBlockNodeHeader := pool.next n
      mUsedSize := pool.mUsedSize + 1
      mCachedSize := pool.mCachedSize - 1 })

/-- `Return`. -/
def giveBack (currNode : Node) : LinkedObjectPool Node :=
  { pool with
    next := Function.update pool.next currNode pool.mFreeBlockNodeHeader
    mFreeBlockNodeHeader := some currNode
    mUsedSize := pool.mUsedSize - 1
    mCachedSize := pool.mCachedSize + 1 }

/-- The loop of `Clear` and of the destructor, which frees every block once: how many blocks it
frees, and what stays allocated. -/
def freeBlockNodes : Nat → Option Node → List Node → Except Failure (Nat × List Node)
  | _, none, allocated => .ok (0, allocated)
  | 0, some _, _ => .error .invalidAccess
  | passes + 1, some n, allocated =>
    if n ∈ allocated then do
      let (capacityAcc, allocated) ← freeBlockNodes passes (pool.next n) (allocated.erase n)
      .ok (capacityAcc + 1, allocated)
    else .error .invalidAccess

def clear : Except Failure (LinkedObjectPool Node) := do
  let (_, allocated) ←
    pool.freeBlockNodes pool.allocated.length pool.mFreeBlockNodeHeader pool.allocated
  let (header, pool) := allocateFreeBlockNodes A { pool with allocated := allocated } 1
  .ok { pool with
    mFreeBlockNodeHeader := header
    mMaxCapacity := pool.mMaxCapacity + 1
    mCachedSize := pool.mCachedSize + 1
    mUsedSize := 0 }

/-- The destructor with its two assertions. -/
def destructor : Except Failure Unit :=
  if pool.mUsedSize ≠ 0 then .error .assertion
  else do
    let (capacityAcc, _) ←
      pool.freeBlockNodes pool.allocated.length pool.mFreeBlockNodeHeader pool.allocated
    if (capacityAcc : Int) = pool.mMaxCapacity then .ok () else .error .assertion

end LinkedObjectPool

namespace ObjectPool

variable {Node : Type} [DecidableEq Node]

/-- `Clear`, over the chain as a list. -/
def clear (A : Allocator Node) (pool : ObjectPool Node) : ObjectPool Node :=
  let cleared := allocateFreeBlockNodes A
    { pool with freeBlockNodes := [], allocated := pool.allocated.diff pool.freeBlockNodes } 1
  { cleared with
    mMaxCapacity := cleared.mMaxCapacity + 1
    mCachedSize := cleared.mCachedSize + 1
    mUsedSize := 0 }

end ObjectPool

namespace LinkedObjectPool

variable {Node : Type}

/-- The chain in memory is the list, and all else is the same. -/
structure Represents (linked : LinkedObjectPool Node) (pool : ObjectPool Node) : Prop where
  chain : Chain linked.next linked.mFreeBlockNodeHeader pool.freeBlockNodes none
  maxCapacity : linked.mMaxCapacity = pool.mMaxCapacity
  usedSize : linked.mUsedSize = pool.mUsedSize
  cachedSize : linked.mCachedSize = pool.mCachedSize
  allocated : linked.allocated = pool.allocated

variable [DecidableEq Node] {A : Allocator Node} {linked : LinkedObjectPool Node} {pool : ObjectPool Node}
  {used : Node → Prop}

/-- `AllocateFreeBlockNodes` behind a chain is what it is in front of a list. -/
theorem linkBlockNodes_represents (A : Allocator Node) (linked : LinkedObjectPool Node)
    (pool : ObjectPool Node) (prev : Option Node) (blockCount : Nat)
    (hChain : Chain linked.next prev pool.freeBlockNodes none)
    (hAllocated : linked.allocated = pool.allocated)
    (hMine : ∀ n ∈ pool.freeBlockNodes, n ∈ pool.allocated) :
    Chain (linkBlockNodes A linked prev blockCount).2.next (linkBlockNodes A linked prev blockCount).1
        (ObjectPool.allocateFreeBlockNodes A pool blockCount).freeBlockNodes none ∧
      (linkBlockNodes A linked prev blockCount).2.allocated =
        (ObjectPool.allocateFreeBlockNodes A pool blockCount).allocated := by
  induction blockCount generalizing linked pool prev with
  | zero => exact ⟨hChain, hAllocated⟩
  | succ blockCount ih =>
      have hFresh := A.fresh pool.allocated
      rw [linkBlockNodes, ObjectPool.allocateFreeBlockNodes, hAllocated]
      apply ih _ _ (some (A.malloc pool.allocated))
      · refine ⟨rfl, ?_⟩
        show Chain _ (Function.update linked.next _ prev _) _ _
        rw [Function.update_self]
        exact hChain.update (fun hMem => hFresh (hMine _ hMem)) _
      · rfl
      · intro n hMem
        exact List.mem_cons.mpr ((List.mem_cons.mp hMem).imp_right (hMine n))

theorem linkBlockNodes_counters (A : Allocator Node) (linked : LinkedObjectPool Node)
    (prev : Option Node) (blockCount : Nat) :
    (linkBlockNodes A linked prev blockCount).2.mMaxCapacity = linked.mMaxCapacity ∧
      (linkBlockNodes A linked prev blockCount).2.mUsedSize = linked.mUsedSize ∧
      (linkBlockNodes A linked prev blockCount).2.mCachedSize = linked.mCachedSize := by
  induction blockCount generalizing linked prev with
  | zero => exact ⟨rfl, rfl, rfl⟩
  | succ blockCount ih =>
      rw [linkBlockNodes]
      exact ih _ _

omit [DecidableEq Node] in
theorem allocateFreeBlockNodes_counters (A : Allocator Node) (pool : ObjectPool Node)
    (blockCount : Nat) :
    (ObjectPool.allocateFreeBlockNodes A pool blockCount).mMaxCapacity = pool.mMaxCapacity ∧
      (ObjectPool.allocateFreeBlockNodes A pool blockCount).mUsedSize = pool.mUsedSize ∧
      (ObjectPool.allocateFreeBlockNodes A pool blockCount).mCachedSize = pool.mCachedSize := by
  induction blockCount generalizing pool with
  | zero => exact ⟨rfl, rfl, rfl⟩
  | succ blockCount ih =>
      rw [ObjectPool.allocateFreeBlockNodes]
      exact ih _

omit [DecidableEq Node] in
/-- As many blocks as were asked for come to the free list. -/
theorem allocateFreeBlockNodes_length (A : Allocator Node) (pool : ObjectPool Node)
    (blockCount : Nat) :
    (ObjectPool.allocateFreeBlockNodes A pool blockCount).freeBlockNodes.length =
      pool.freeBlockNodes.length + blockCount := by
  induction blockCount generalizing pool with
  | zero => rfl
  | succ blockCount ih =>
      rw [ObjectPool.allocateFreeBlockNodes, ih, List.length_cons]
      omega

/-- The constructor builds the chain that the list stands for. -/
theorem new_represents (memory : Node → Option Node) (initialCapacity : Nat) :
    (new A memory initialCapacity).Represents (ObjectPool.new A initialCapacity) := by
  let linked : LinkedObjectPool Node := ⟨0, 0, 0, none, memory, []⟩
  let pool : ObjectPool Node := ⟨initialCapacity, 0, initialCapacity, [], []⟩
  obtain ⟨hChain, hAllocated⟩ := linkBlockNodes_represents A linked pool none initialCapacity rfl rfl (fun _ hMem => nomatch hMem)
  obtain ⟨hMax, hUsed, hCached⟩ := linkBlockNodes_counters A linked none initialCapacity
  obtain ⟨hMax', hUsed', hCached'⟩ := allocateFreeBlockNodes_counters A pool initialCapacity
  refine ⟨hChain, ?_, ?_, ?_, hAllocated⟩
  · change (linkBlockNodes A linked none initialCapacity).2.mMaxCapacity + _ = _
    rw [hMax]
    exact (Int.zero_add _).trans hMax'.symm
  · exact hUsed.trans hUsed'.symm
  · change (linkBlockNodes A linked none initialCapacity).2.mCachedSize + _ = _
    rw [hCached]
    exact (Int.zero_add _).trans hCached'.symm

/-- `Rent` finds a block, its own if the chain is empty. -/
theorem Represents.rent (h : linked.Represents pool) :
    ∃ linked', linked.rent A = .ok ((pool.rent A).1, linked') ∧ linked'.Represents (pool.rent A).2 := by
  have hChain := h.chain
  have hMax := h.maxCapacity
  have hUsed := h.usedSize
  have hCached := h.cachedSize
  have hAllocated := h.allocated
  obtain ⟨max, usedSize, cachedSize, header, next, allocated⟩ := linked
  obtain ⟨max', usedSize', cachedSize', free, allocated'⟩ := pool
  dsimp only at hChain hMax hUsed hCached hAllocated
  subst hMax hUsed hCached hAllocated
  cases free with
  | nil =>
      obtain rfl : header = none := hChain
      refine ⟨_, rfl, ?_, rfl, rfl, rfl, rfl⟩
      exact Function.update_self ..
  | cons n later =>
      obtain ⟨rfl, hLater⟩ := hChain
      exact ⟨_, rfl, hLater, rfl, rfl, rfl, rfl⟩

/-- `Return` puts its block in front of the chain. -/
theorem Represents.giveBack (h : linked.Represents pool) {n : Node} (hApart : n ∉ pool.freeBlockNodes) :
    (linked.giveBack n).Represents (pool.giveBack n) := by
  refine ⟨⟨rfl, ?_⟩, h.maxCapacity, ?_, ?_, h.allocated⟩
  · show Chain _ (Function.update linked.next n linked.mFreeBlockNodeHeader n) _ _
    rw [Function.update_self]
    exact h.chain.update hApart _
  · show linked.mUsedSize - 1 = pool.mUsedSize - 1
    rw [h.usedSize]
  · show linked.mCachedSize + 1 = pool.mCachedSize + 1
    rw [h.cachedSize]

/-- The loop frees the blocks of the chain. -/
theorem freeBlockNodes_chain {p : Option Node} {list allocated : List Node} {passes : Nat}
    (h : Chain linked.next p list none) (hNodup : list.Nodup) (hAllocated : ∀ n ∈ list, n ∈ allocated)
    (hPasses : list.length ≤ passes) :
    linked.freeBlockNodes passes p allocated = .ok (list.length, allocated.diff list) := by
  induction list generalizing p allocated passes with
  | nil =>
      obtain rfl := chain_nil.mp h
      cases passes <;> rfl
  | cons n later ih =>
      obtain ⟨rfl, hLater⟩ := h
      obtain ⟨hApart, hNodup⟩ := List.nodup_cons.mp hNodup
      cases passes with
      | zero => cases hPasses
      | succ passes =>
          have hLeft : ∀ m ∈ later, m ∈ allocated.erase n := by
            intro m hm
            have hOther : m ≠ n := fun hSame => hApart (hSame ▸ hm)
            exact (List.mem_erase_of_ne hOther).mpr (hAllocated m (List.mem_cons_of_mem n hm))
          have hRest := ih hLater hNodup hLeft (Nat.le_of_succ_le_succ hPasses)
          rw [freeBlockNodes, if_pos (hAllocated n List.mem_cons_self), hRest, List.diff_cons]
          rfl

/-- The blocks of the chain are all different and allocated, so the loop has passes enough. -/
theorem Represents.freeBlockNodes (h : linked.Represents pool) (hLends : pool.Lends used) :
    linked.freeBlockNodes linked.allocated.length linked.mFreeBlockNodeHeader linked.allocated =
      .ok (pool.freeBlockNodes.length, pool.allocated.diff pool.freeBlockNodes) := by
  rw [h.allocated]
  refine freeBlockNodes_chain h.chain hLends.nodup (fun n hMem => hLends.freeAllocated hMem) ?_
  exact (List.subperm_of_subset hLends.nodup fun n hMem => hLends.freeAllocated hMem).length_le

/-- `Clear` frees every block of the chain once and starts a chain of one. -/
theorem Represents.clear (h : linked.Represents pool) (hLends : pool.Lends used) :
    ∃ linked', linked.clear A = .ok linked' ∧ linked'.Represents (pool.clear A) := by
  let cleared : ObjectPool Node :=
    { pool with freeBlockNodes := [], allocated := pool.allocated.diff pool.freeBlockNodes }
  let emptied : LinkedObjectPool Node :=
    { linked with allocated := pool.allocated.diff pool.freeBlockNodes }
  obtain ⟨hChain, hAllocated⟩ := linkBlockNodes_represents A emptied cleared none 1 rfl rfl (fun _ hMem => nomatch hMem)
  obtain ⟨hMax, _, hCached⟩ := linkBlockNodes_counters A emptied none 1
  obtain ⟨hMax', _, hCached'⟩ := allocateFreeBlockNodes_counters A cleared 1
  let after : LinkedObjectPool Node :=
    { (linkBlockNodes A emptied none 1).2 with
      mFreeBlockNodeHeader := (linkBlockNodes A emptied none 1).1
      mMaxCapacity := (linkBlockNodes A emptied none 1).2.mMaxCapacity + 1
      mCachedSize := (linkBlockNodes A emptied none 1).2.mCachedSize + 1
      mUsedSize := 0 }
  refine ⟨after, by rw [LinkedObjectPool.clear, h.freeBlockNodes hLends]; rfl, hChain, ?_, rfl, ?_,
    hAllocated⟩
  · show (linkBlockNodes A emptied none 1).2.mMaxCapacity + 1 =
      (ObjectPool.allocateFreeBlockNodes A cleared 1).mMaxCapacity + 1
    rw [hMax, hMax']
    exact congrArg (· + 1) h.maxCapacity
  · show (linkBlockNodes A emptied none 1).2.mCachedSize + 1 =
      (ObjectPool.allocateFreeBlockNodes A cleared 1).mCachedSize + 1
    rw [hCached, hCached']
    exact congrArg (· + 1) h.cachedSize

end LinkedObjectPool
/-- A pool and the objects that its only client has. -/
structure ObjectPoolClient (Node : Type) where
  pool : LinkedObjectPool Node
  rented : List Node

inductive ObjectPoolOp (Node : Type) where
  | rent
  | giveBack (ptrT : Node)
  | clear

namespace ObjectPoolClient

variable {Node : Type} [DecidableEq Node] (A : Allocator Node)

def new (memory : Node → Option Node) (initialCapacity : Nat) : ObjectPoolClient Node :=
  ⟨.new A memory initialCapacity, []⟩

/-- One call, and the object if it is a `Rent`. -/
def step (s : ObjectPoolClient Node) :
    ObjectPoolOp Node → Except Failure (Option Node × ObjectPoolClient Node)
  | .rent => do
    let (n, pool) ← s.pool.rent A
    .ok (some n, ⟨pool, n :: s.rented⟩)
  | .giveBack n => .ok (none, ⟨s.pool.giveBack n, s.rented.erase n⟩)
  | .clear => do
    let pool ← s.pool.clear A
    .ok (none, ⟨pool, s.rented⟩)

omit [DecidableEq Node] in
/-- A client returns what it has, and clears when it has nothing. -/
def Allowed (s : ObjectPoolClient Node) : ObjectPoolOp Node → Prop
  | .rent => True
  | .giveBack n => n ∈ s.rented
  | .clear => s.rented = []

omit [DecidableEq Node] in
/-- `Rent` finds a free block, and `Clear` finds none. -/
def Exact (s : ObjectPoolClient Node) : ObjectPoolOp Node → Prop
  | .rent => s.pool.mFreeBlockNodeHeader ≠ none
  | .giveBack _ => True
  | .clear => s.pool.mFreeBlockNodeHeader = none

instance (s : ObjectPoolClient Node) : DecidablePred s.Allowed
  | .rent => inferInstanceAs (Decidable True)
  | .giveBack n => inferInstanceAs (Decidable (n ∈ s.rented))
  | .clear => inferInstanceAs (Decidable (s.rented = []))

instance (s : ObjectPoolClient Node) : DecidablePred s.Exact
  | .rent => inferInstanceAs (Decidable (s.pool.mFreeBlockNodeHeader ≠ none))
  | .giveBack _ => inferInstanceAs (Decidable True)
  | .clear => inferInstanceAs (Decidable (s.pool.mFreeBlockNodeHeader = none))

/-- The chain ends, meets no block twice and no rented object; the used size is right, and what
`Rent` gives was not rented. -/
structure Sound (s : ObjectPoolClient Node) : Prop where
  chain : ∃ free, Chain s.pool.next s.pool.mFreeBlockNodeHeader free none ∧ free.Nodup ∧
    ∀ n ∈ free, n ∉ s.rented
  nodup : s.rented.Nodup
  usedSize : s.pool.mUsedSize = s.rented.length
  rents : ∃ n pool, s.pool.rent A = .ok (n, pool) ∧ n ∉ s.rented

omit [DecidableEq Node] in
/-- The other two counters are right. -/
def Counted (s : ObjectPoolClient Node) : Prop :=
  ∃ free, Chain s.pool.next s.pool.mFreeBlockNodeHeader free none ∧
    s.pool.mCachedSize = free.length ∧ s.pool.mMaxCapacity = s.pool.mUsedSize + free.length

/-- What the client relies on. -/
structure Keeps (s : ObjectPoolClient Node) (pool : ObjectPool Node) : Prop where
  represents : s.pool.Represents pool
  lends : pool.Lends (· ∈ s.rented)
  nodup : s.rented.Nodup
  usedSize : pool.mUsedSize = s.rented.length

variable {A} {s s' : ObjectPoolClient Node} {pool : ObjectPool Node}

/-- To begin with nothing is rented. -/
theorem Keeps.new (memory : Node → Option Node) (initialCapacity : Nat) :
    (new A memory initialCapacity).Keeps (ObjectPool.new A initialCapacity) where
  represents := LinkedObjectPool.new_represents memory initialCapacity
  lends := (ObjectPool.new_lends initialCapacity).congr fun n => by simp [ObjectPoolClient.new]
  nodup := List.nodup_nil
  usedSize := (LinkedObjectPool.allocateFreeBlockNodes_counters A _ _).2.1

/-- What the client and the pool keep together, read as soundness. -/
theorem Keeps.sound (h : s.Keeps pool) : s.Sound A := by
  obtain ⟨linked', hRent, _⟩ := h.represents.rent (A := A)
  refine ⟨⟨pool.freeBlockNodes, h.represents.chain, h.lends.nodup, ?_⟩, h.nodup,
    h.represents.usedSize.trans h.usedSize, _, linked', hRent, h.lends.rent.1⟩
  intro n hFree hUsed
  exact h.lends.apart hUsed hFree

omit [DecidableEq Node] in
/-- The two counters that may drift are right if the list pool's are. -/
theorem Keeps.counted_iff (h : s.Keeps pool) : s.Counted ↔
    pool.mCachedSize = pool.freeBlockNodes.length ∧
      pool.mMaxCapacity = pool.mUsedSize + pool.freeBlockNodes.length := by
  rw [← h.represents.cachedSize, ← h.represents.maxCapacity, ← h.represents.usedSize]
  constructor
  · rintro ⟨free, hChain, hCounts⟩
    rwa [Chain.unique hChain h.represents.chain] at hCounts
  · intro hCounts
    exact ⟨_, h.represents.chain, hCounts⟩

omit [DecidableEq Node] in
/-- The header is null exactly if no block is free. -/
theorem Keeps.header_iff (h : s.Keeps pool) :
    s.pool.mFreeBlockNodeHeader = none ↔ pool.freeBlockNodes = [] := by
  have hChain := h.represents.chain
  constructor
  · intro hNone
    rw [hNone] at hChain
    exact Chain.unique hChain rfl
  · intro hNil
    rw [hNil] at hChain
    exact hChain

/-- `Rent` comes through, and what it lends was not lent. -/
theorem Keeps.rent (h : s.Keeps pool) : ∃ outcome s', s.step A .rent = .ok (outcome, s') ∧
    s'.Keeps (pool.rent A).2 := by
  obtain ⟨linked', hRent, hAfter⟩ := h.represents.rent (A := A)
  obtain ⟨hFresh, hLends⟩ := h.lends.rent (A := A)
  refine ⟨_, ⟨linked', (pool.rent A).1 :: s.rented⟩, by rw [step, hRent]; rfl, hAfter, ?_,
    List.nodup_cons.mpr ⟨hFresh, h.nodup⟩, ?_⟩
  · exact hLends.congr fun n => by simp [or_comm]
  · have hUsed := h.usedSize
    have hMore : (pool.rent A).2.mUsedSize = pool.mUsedSize + 1 := by
      rw [ObjectPool.rent]
      split <;> rfl
    rw [hMore, List.length_cons]
    omega

/-- `Return` of something rented comes through. -/
theorem Keeps.giveBack (h : s.Keeps pool) {n : Node} (hMem : n ∈ s.rented) :
    ∃ outcome s', s.step A (.giveBack n) = .ok (outcome, s') ∧ s'.Keeps (pool.giveBack n) := by
  refine ⟨_, _, rfl, h.represents.giveBack (h.lends.apart hMem), ?_, h.nodup.erase n, ?_⟩
  · exact (h.lends.giveBack hMem).congr fun m => by rw [h.nodup.mem_erase_iff, and_comm]
  · have hUsed := h.usedSize
    have hPos := List.length_pos_of_mem hMem
    show pool.mUsedSize - 1 = ((s.rented.erase n).length : Int)
    rw [List.length_erase_of_mem hMem]
    omega

/-- So does `Clear` with nothing rented. -/
theorem Keeps.clear (h : s.Keeps pool) (hNone : s.rented = []) :
    ∃ outcome s', s.step A .clear = .ok (outcome, s') ∧ s'.Keeps (pool.clear A) := by
  obtain ⟨linked', hClear, hAfter⟩ := h.represents.clear (A := A) h.lends
  refine ⟨_, ⟨linked', s.rented⟩, by rw [step, hClear]; rfl, hAfter, ?_, h.nodup, ?_⟩
  · have hNobody : ∀ n, n ∈ s.rented ↔ False := by simp [hNone]
    have hCleared : ({ pool with freeBlockNodes := [], allocated := pool.allocated.diff pool.freeBlockNodes } :
        ObjectPool Node).Lends fun _ => False :=
      ⟨List.nodup_nil, False.elim, fun hMem => (nomatch hMem), False.elim⟩
    have hLends := (hCleared.allocateFreeBlockNodes (A := A) 1).congr hNobody
    exact ⟨hLends.nodup, hLends.apart, hLends.freeAllocated, hLends.usedAllocated⟩
  · show (0 : Int) = (s.rented.length : Int)
    rw [hNone]
    rfl

/-- One call keeps what the client relies on, and it keeps the counters right exactly when it is
an exact one. -/
theorem Keeps.step (h : s.Keeps pool) {op : ObjectPoolOp Node} (hAllowed : s.Allowed op) :
    ∃ outcome s' pool', s.step A op = .ok (outcome, s') ∧ s'.Keeps pool' ∧
      (s.Counted → (s'.Counted ↔ s.Exact op)) := by
  cases op with
  | rent =>
      obtain ⟨outcome, s', hStep, hAfter⟩ := h.rent (A := A)
      refine ⟨outcome, s', _, hStep, hAfter, ?_⟩
      rw [h.counted_iff, hAfter.counted_iff, Exact, ne_eq, h.header_iff]
      rintro ⟨hCached, hMax⟩
      cases hFree : pool.freeBlockNodes with
      | nil =>
          rw [hFree] at hCached
          simp [ObjectPool.rent, hFree, hCached]
      | cons n later =>
          rw [hFree, List.length_cons] at hCached hMax
          simp only [ObjectPool.rent, hFree, reduceCtorEq, not_false_eq_true, iff_true]
          omega
  | giveBack n =>
      obtain ⟨outcome, s', hStep, hAfter⟩ := h.giveBack (A := A) hAllowed
      refine ⟨outcome, s', _, hStep, hAfter, ?_⟩
      rw [h.counted_iff, hAfter.counted_iff]
      rintro ⟨hCached, hMax⟩
      simp only [ObjectPool.giveBack, List.length_cons, Exact, iff_true]
      omega
  | clear =>
      obtain ⟨outcome, s', hStep, hAfter⟩ := h.clear (A := A) hAllowed
      refine ⟨outcome, s', _, hStep, hAfter, ?_⟩
      rw [h.counted_iff, hAfter.counted_iff, Exact, h.header_iff, ← List.length_eq_zero_iff]
      rintro ⟨hCached, hMax⟩
      have hUsed := h.usedSize
      have hNone : s.rented = [] := hAllowed
      rw [hNone] at hUsed
      simp only [ObjectPool.clear, LinkedObjectPool.allocateFreeBlockNodes_counters,
        LinkedObjectPool.allocateFreeBlockNodes_length, List.length_nil] at hUsed ⊢
      omega

/-- The constructor counts right. -/
theorem Keeps.new_counted (memory : Node → Option Node) (initialCapacity : Nat) :
    (ObjectPoolClient.new A memory initialCapacity).Counted := by
  have hFields := LinkedObjectPool.allocateFreeBlockNodes_counters A
    (⟨initialCapacity, 0, initialCapacity, [], []⟩ : ObjectPool Node) initialCapacity
  have hLength := LinkedObjectPool.allocateFreeBlockNodes_length A
    (⟨initialCapacity, 0, initialCapacity, [], []⟩ : ObjectPool Node) initialCapacity
  rw [(Keeps.new memory initialCapacity).counted_iff, ObjectPool.new, hLength]
  simp [hFields]

/-- A client that is allowed each call gets an answer to each. -/
theorem Keeps.answers {ops : List (ObjectPoolOp Node)} (h : s.Keeps pool)
    (hOps : Heeds (ObjectPoolClient.step A) Allowed s ops) {before later : List (ObjectPoolOp Node)}
    (hSplit : ops = before ++ later) :
    ∃ outcomes s' pool', answers (ObjectPoolClient.step A) s before = .ok (outcomes, s') ∧
      s'.Keeps pool' := by
  induction before using List.reverseRecOn generalizing later with
  | nil => exact ⟨[], s, pool, rfl, h⟩
  | append_singleton before op ih =>
      rw [List.append_assoc, List.singleton_append] at hSplit
      obtain ⟨outcomes, s', pool', hBefore, hKeeps⟩ := ih hSplit
      obtain ⟨outcome, s'', pool'', hStep, hAfter, -⟩ :=
        hKeeps.step (hOps before op later outcomes s' hSplit hBefore)
      exact ⟨_, s'', pool'', answers_concat hBefore hStep, hAfter⟩

/-- The counters are right all along. -/
def AlwaysCounted (A : Allocator Node) (s : ObjectPoolClient Node) (ops : List (ObjectPoolOp Node)) : Prop :=
  ∀ before later outcomes s', ops = before ++ later →
    Machinery.answers (ObjectPoolClient.step A) s before = .ok (outcomes, s') → s'.Counted

/-- The counters are right all along exactly if every call is an exact one. -/
theorem Keeps.alwaysCounted_iff {ops : List (ObjectPoolOp Node)} (h : s.Keeps pool) (hCounted : s.Counted)
    (hOps : Heeds (ObjectPoolClient.step A) Allowed s ops) :
    s.AlwaysCounted A ops ↔ Heeds (ObjectPoolClient.step A) Exact s ops := by
  constructor
  · intro hAlways before op later outcomes s' hSplit hBefore
    obtain ⟨_, _, pool', hBefore', hKeeps⟩ := h.answers hOps hSplit
    cases hBefore'.symm.trans hBefore
    obtain ⟨outcome, s'', _, hStep, -, hExact⟩ := hKeeps.step (hOps before op later _ _ hSplit hBefore)
    apply (hExact (hAlways before _ _ _ hSplit hBefore)).mp
    exact hAlways (before ++ [op]) later _ s'' (by simp [hSplit]) (answers_concat hBefore hStep)
  · intro hExact before
    induction before using List.reverseRecOn with
    | nil =>
        intro later outcomes s' _ hBefore
        cases hBefore
        exact hCounted
    | append_singleton before op ih =>
        intro later outcomes s' hSplit hAfter
        rw [List.append_assoc, List.singleton_append] at hSplit
        obtain ⟨seen, s₁, pool', hBefore, hKeeps⟩ := h.answers hOps hSplit
        obtain ⟨outcome, s₂, _, hStep, -, hIff⟩ := hKeeps.step (hOps before op later _ _ hSplit hBefore)
        cases (answers_concat hBefore hStep).symm.trans hAfter
        exact (hIff (ih _ _ _ hSplit hBefore)).mpr (hExact before op later _ _ hSplit hBefore)

/-- Where the counters are right, the assertions of the destructor hold. -/
theorem Keeps.destructor (h : s.Keeps pool) (hCounted : s.Counted) (hNone : s.rented = []) :
    s.pool.destructor = .ok () := by
  obtain ⟨_, hMax⟩ := h.counted_iff.mp hCounted
  have hUsed := h.represents.usedSize.trans h.usedSize
  rw [hNone] at hUsed
  have hCapacity : (pool.freeBlockNodes.length : Int) = s.pool.mMaxCapacity := by
    rw [h.represents.maxCapacity, hMax, ← h.represents.usedSize, hUsed]
    simp
  rw [LinkedObjectPool.destructor, if_neg (by simp [hUsed]), h.represents.freeBlockNodes h.lends]
  exact if_pos hCapacity

/-- Whatever its client does, the pool's chain is sound and its used size right. The cached size and
the capacity are right in all states of a run exactly if every `Rent` finds a free block and every
`Clear` finds none. -/
theorem bookkeeping (A : Allocator Node) (memory : Node → Option Node) (initialCapacity : Nat)
    (ops : List (ObjectPoolOp Node))
    (hOps : Heeds (ObjectPoolClient.step A) Allowed (new A memory initialCapacity) ops) :
    (∀ before later, ops = before ++ later → ∃ outcomes s,
      Machinery.answers (ObjectPoolClient.step A) (new A memory initialCapacity) before =
        .ok (outcomes, s) ∧ s.Sound A) ∧
    ((new A memory initialCapacity).AlwaysCounted A ops ↔
      Heeds (ObjectPoolClient.step A) Exact (new A memory initialCapacity) ops) := by
  have hNew := Keeps.new (A := A) memory initialCapacity
  refine ⟨?_, hNew.alwaysCounted_iff (Keeps.new_counted memory initialCapacity) hOps⟩
  intro before later hSplit
  obtain ⟨outcomes, s, _, hBefore, hKeeps⟩ := hNew.answers hOps hSplit
  exact ⟨outcomes, s, hBefore, hKeeps.sound⟩

section Runs

private def pastSum : Allocator Nat where
  malloc allocated := allocated.sum + 1
  fresh := sum_succ_not_mem

/-- Blocks lent and given back in turn, freed by a `Clear`, and the block that `Clear` leaves lent. -/
private def mixedCalls : List (ObjectPoolOp Nat) :=
  [.rent, .rent, .giveBack 2, .rent, .giveBack 1, .giveBack 2, .clear, .rent]

/-- A pool that starts out empty and gets its one block from `Clear`. -/
private def clearedCalls : List (ObjectPoolOp Nat) := [.clear, .rent, .giveBack 1, .rent, .giveBack 1]

/-- A mixed history keeps the chain sound, and one in which every `Rent` finds a block counts right. -/
theorem bookkeeping_mixed :
    (∀ before later, mixedCalls = before ++ later → ∃ outcomes s,
      Machinery.answers (ObjectPoolClient.step pastSum) (new pastSum (fun _ => none) 2) before =
        .ok (outcomes, s) ∧ s.Sound pastSum) ∧
    (new pastSum (fun _ => none) 0).AlwaysCounted pastSum clearedCalls := by
  constructor
  · refine (bookkeeping pastSum (fun _ => none) 2 mixedCalls ?_).1
    repeat refine (heeds_cons rfl).mpr ⟨by decide, ?_⟩
    exact heeds_nil
  · refine (bookkeeping pastSum (fun _ => none) 0 clearedCalls ?_).2.mpr ?_
    · repeat refine (heeds_cons rfl).mpr ⟨by decide, ?_⟩
      exact heeds_nil
    · repeat refine (heeds_cons rfl).mpr ⟨by decide, ?_⟩
      exact heeds_nil

/-- A pool without blocks counts minus one cached block after its first `Rent`. -/
theorem not_alwaysCounted : ¬ ∀ (memory : Nat → Option Nat) (initialCapacity : Nat)
    (ops : List (ObjectPoolOp Nat)),
    Heeds (ObjectPoolClient.step pastSum) Allowed (new pastSum memory initialCapacity) ops →
    (new pastSum memory initialCapacity).AlwaysCounted pastSum ops := by
  intro h
  have hAllowed : Heeds (ObjectPoolClient.step pastSum) Allowed (new pastSum (fun _ => none) 0) [.rent] :=
    (heeds_cons rfl).mpr ⟨trivial, heeds_nil⟩
  have hIff := (Keeps.new (A := pastSum) (fun _ => none) 0).alwaysCounted_iff
    (Keeps.new_counted (fun _ => none) 0) hAllowed
  have hExact := hIff.mp (h (fun _ => none) 0 [.rent] hAllowed)
  exact ((heeds_cons rfl).mp hExact).1 rfl

end Runs

end ObjectPoolClient

end NfNetwork
