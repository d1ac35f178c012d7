import NfNetwork.Collections.LockFreeStack
import NfNetwork.ObjectPool.PoolReset

/-! `LockFreeStack` in the hands of one thread, with its node pool. `Clear` gives every
node back and clears the pool, but keeps `mUsedSize` as it keeps the pool's
`mCachedSize`; `Init` clears and does not set them either. -/
namespace NfNetwork.Collections

open Machinery ObjectPool

variable {Node Value : Type}

structure PooledStack (Node Value : Type) where
  mHead : StackIndexer Node
  mPool : ObjectPoolLockFree Node
  mUsedSize : Int
  mMaxCapacity : Nat
  nodes : Node → StackNode Node Value

inductive StackOp (Value : Type) where
  | push (inputData : Value)
  | tryPop
  | clear
  | init (maxCapacity : Nat)
  | getUsedSize

/-- `Clear` and `Init`. -/
def StackOp.resets : StackOp Value → Bool
  | .clear | .init _ => true
  | _ => false

inductive StackOutcome (Value : Type) where
  | pushed (accepted : Bool)
  | popped (outputData : Option Value)
  | done
  | usedSize (size : Int)
deriving DecidableEq

namespace PooledStack

/-- What `LockFreeStack()` leaves. -/
def new (uid : UInt64) (blocks : Node → BlockNode Node) (nodes : Node → StackNode Node Value) :
    PooledStack Node Value :=
  ⟨⟨0, none⟩, .new uid .None blocks, 0, 0, nodes⟩

/-- What `LockFreeStack(maxCapacity)` leaves. -/
def newWith (maxCapacity : Nat) (uid : UInt64) (blocks : Node → BlockNode Node)
    (nodes : Node → StackNode Node Value) : PooledStack Node Value :=
  { new uid blocks nodes with mMaxCapacity := maxCapacity }

section Operations

variable [DecidableEq Node] (A : Allocator Node) (stack : PooledStack Node Value)

def next (n : Node) : Option Node := (stack.nodes n).Next

def full : Bool := stack.mMaxCapacity < (stack.mUsedSize % 2 ^ 64).toNat

def push (inputData : Value) : Except Failure (Bool × PooledStack Node Value) :=
  if stack.full then .ok (false, stack)
  else do
    let (newNode, mPool) ← stack.mPool.rent A
    .ok (true, { stack with
      mPool := mPool
      nodes := Function.update stack.nodes newNode ⟨stack.mHead.Node, inputData⟩
      mHead := ⟨stack.mHead.UID + 1, some newNode⟩
      mUsedSize := stack.mUsedSize + 1 })

def tryPop : Except Failure (Option Value × PooledStack Node Value) :=
  if stack.mUsedSize - 1 < 0 then .ok (none, stack)
  else match stack.mHead.Node with
    | none => .error .assertion
    | some n => do
      let mPool ← stack.mPool.giveBack n
      .ok (some (stack.nodes n).Data, { stack with
        mPool := mPool
        mHead := ⟨stack.mHead.UID + 1, stack.next n⟩
        mUsedSize := stack.mUsedSize - 1 })

/-- The loop of `Clear`. The nodes are different blocks, so as many passes as there are
blocks are enough. -/
def clearLoop : Nat → PooledStack Node Value → Except Failure (PooledStack Node Value)
  | 0, stack => if stack.mHead.Node = none then .ok stack else .error .invalidAccess
  | passes + 1, stack => match stack.mHead.Node with
    | none => .ok stack
    | some n => do
      let mPool ← stack.mPool.giveBack n
      clearLoop passes { stack with
        mHead := { stack.mHead with Node := stack.next n }
        mPool := mPool }

def clear : Except Failure (PooledStack Node Value) := do
  let stack ← clearLoop stack.mPool.allocated.length stack
  let mPool ← stack.mPool.clear false
  .ok { stack with mMaxCapacity := 0, mPool := mPool }

def init (maxCapacity : Nat) : Except Failure (PooledStack Node Value) := do
  let stack ← stack.clear
  let mPool ← stack.mPool.init maxCapacity
  .ok { stack with mPool := mPool, mMaxCapacity := maxCapacity, mHead := ⟨0, none⟩ }

def step : StackOp Value → Except Failure (StackOutcome Value × PooledStack Node Value)
  | .push inputData => do
    let (accepted, stack) ← stack.push A inputData
    .ok (.pushed accepted, stack)
  | .tryPop => do
    let (outputData, stack) ← stack.tryPop
    .ok (.popped outputData, stack)
  | .clear => do
    let stack ← stack.clear
    .ok (.done, stack)
  | .init maxCapacity => do
    let stack ← stack.init maxCapacity
    .ok (.done, stack)
  | .getUsedSize => .ok (.usedSize stack.mUsedSize, stack)

end Operations

/-- The list, and how many nodes too many the two counters count. -/
structure Keeps (s : PooledStack Node Value) (uid : UInt64) (blocks : Node → BlockNode Node)
    (nodes : Node → StackNode Node Value) (list freeList : List Node) (stale : Nat) : Prop where
  linked : Chain s.next s.mHead.Node list none
  pool : (⟨s.mPool, list⟩ : PoolClient Node).Keeps uid .None blocks freeList stale
  rented : s.mPool.mUsedSize = list.length
  usedSize : list.length ≤ s.mUsedSize
  /-- A stack whose pool never had a block is as it was. -/
  untouched : s.mPool.allocated = [] → stale = 0 → s.mUsedSize = 0 ∧ s.nodes = nodes
  touched : s.mPool.allocated ≠ [] ∨ stale ≠ 0 → Nonempty Value

section Invariant

variable {s s' : PooledStack Node Value} {uid : UInt64} {blocks : Node → BlockNode Node}
  {nodes : Node → StackNode Node Value} {list freeList : List Node} {stale maxCapacity : Nat}

theorem Keeps.new (uid : UInt64) (blocks : Node → BlockNode Node)
    (nodes : Node → StackNode Node Value) (maxCapacity : Nat) :
    (newWith maxCapacity uid blocks nodes).Keeps uid blocks nodes [] [] 0 :=
  ⟨rfl, PoolClient.Keeps.new uid .None blocks, rfl, Int.le_refl 0, fun _ _ => ⟨rfl, rfl⟩,
    fun h => h.elim (fun h => absurd rfl h) fun h => absurd rfl h⟩

/-- The two counters say whether the stack ever had a node. -/
theorem Keeps.counters_iff (h : s.Keeps uid blocks nodes list freeList stale) :
    s.mUsedSize = 0 ∧ s.mPool.mCachedSize = 0 ↔ s.mPool.allocated = [] ∧ stale = 0 := by
  have hUsed := h.usedSize
  have hCached : s.mPool.mCachedSize = freeList.length + stale := h.pool.cachedSize
  have hPlaces : (s.mPool.allocated : Multiset Node) = freeList + list := h.pool.places
  have hCard := congrArg Multiset.card hPlaces
  simp only [Multiset.card_add, Multiset.coe_card] at hCard
  constructor
  · intro hZero
    exact ⟨List.eq_nil_of_length_eq_zero (by omega), by omega⟩
  · intro hNone
    obtain ⟨hNone, hStale⟩ := hNone
    rw [hNone, List.length_nil] at hCard
    exact ⟨(h.untouched hNone hStale).1, by omega⟩

/-- What is kept after the nodes and the cached blocks are gone. -/
theorem Keeps.emptied (h : s.Keeps uid blocks nodes list freeList stale) {mPool : ObjectPoolLockFree Node}
    (hUsed : mPool.mUsedSize = 0)
    (hPool : (⟨mPool, 0⟩ : PoolClient Node).Keeps uid .None blocks []
      (list.length + freeList.length + stale)) (uid' : UInt64) (capacity : Nat) :
    (⟨⟨uid', none⟩, mPool, s.mUsedSize, capacity, s.nodes⟩ : PooledStack Node Value).Keeps uid blocks nodes
      [] [] (list.length + freeList.length + stale) := by
  have hSize := h.usedSize
  have hCard := congrArg Multiset.card h.pool.places
  simp only [Multiset.card_add, Multiset.coe_card] at hCard
  have hGone : mPool.allocated = [] := by
    have hPlaces : (mPool.allocated : Multiset Node) = ([] : List Node) + 0 := hPool.places
    rw [add_zero] at hPlaces
    exact (Multiset.coe_eq_zero _).mp hPlaces
  refine ⟨rfl, hPool, hUsed, ?_, ?_, ?_⟩
  · change (0 : Int) ≤ s.mUsedSize
    omega
  · intro _ hNone
    exact h.untouched (List.eq_nil_of_length_eq_zero (by omega)) (by omega)
  · intro hTouched
    obtain hSome | hStale := hTouched
    · exact absurd hGone hSome
    · refine h.touched ?_
      by_cases hNone : stale = 0
      · refine .inl fun hEmpty => hStale ?_
        rw [hEmpty, List.length_nil] at hCard
        omega
      · exact .inr hNone

/-- What the client of a stack relies on. -/
def Holds (uid : UInt64) (blocks : Node → BlockNode Node) (nodes : Node → StackNode Node Value)
    (s : PooledStack Node Value) : Prop :=
  ∃ list freeList stale, s.Keeps uid blocks nodes list freeList stale

variable [DecidableEq Node] {A : Allocator Node}

/-- `Push` takes a node that is in no place. -/
theorem Keeps.push (h : s.Keeps uid blocks nodes list freeList stale) (hRoom : s.full = false)
    (hFound : stale = 0 ∨ freeList ≠ []) (v : Value) :
    ∃ s' n freeList', s.push A v = .ok (true, s') ∧ s'.mUsedSize = s.mUsedSize + 1 ∧
      s'.mMaxCapacity = s.mMaxCapacity ∧ n ∉ list ∧
      s'.nodes = Function.update s.nodes n ⟨s.mHead.Node, v⟩ ∧
      s'.Keeps uid blocks nodes (n :: list) freeList' stale := by
  obtain ⟨n, pool, freeList', hOk, hApart, hUsed, hAfter⟩ := h.pool.rent (A := A) hFound
  have hMine : n ∈ pool.allocated := hAfter.mem_allocated.mpr (.inr (Multiset.mem_cons_self n (list : Multiset Node)))
  let pushed : PooledStack Node Value := { s with
    mPool := pool
    nodes := Function.update s.nodes n ⟨s.mHead.Node, v⟩
    mHead := ⟨s.mHead.UID + 1, some n⟩
    mUsedSize := s.mUsedSize + 1 }
  refine ⟨pushed, n, freeList', ?_, rfl, rfl, hApart, rfl, ⟨rfl, ?_⟩, hAfter, ?_, ?_, ?_, fun _ => ⟨v⟩⟩
  · rw [PooledStack.push, hRoom, hOk]
    rfl
  · have hLink : pushed.next = Function.update s.next n s.mHead.Node := by
      funext m
      by_cases hSame : m = n
      · subst hSame
        simp [pushed, PooledStack.next]
      · simp [pushed, PooledStack.next, Function.update_of_ne hSame]
    rw [hLink, Function.update_self]
    exact h.linked.update hApart _
  · change pool.mUsedSize = _
    rw [hUsed, h.rented, List.length_cons]
    omega
  · have hSize := h.usedSize
    change _ ≤ s.mUsedSize + 1
    rw [List.length_cons]
    omega
  · intro hNone
    change pool.allocated = [] at hNone
    rw [hNone] at hMine
    cases hMine

/-- Give the first node back: one pass of the loop of `Clear`, and most of `TryPop`. -/
theorem Keeps.giveBack {n : Node} (h : s.Keeps uid blocks nodes (n :: list) freeList stale) :
    ∃ pool, s.mPool.giveBack n = .ok pool ∧
      ∀ (uid' : UInt64) (used : Int) (capacity : Nat), list.length ≤ used →
        (⟨⟨uid', s.next n⟩, pool, used, capacity, s.nodes⟩ : PooledStack Node Value).Keeps uid blocks nodes
          list (n :: freeList) stale := by
  obtain ⟨hHead, hLater⟩ := h.linked
  obtain ⟨pool, hOk, hUsed, hAfter⟩ := h.pool.giveBack (n := n) List.mem_cons_self
  rw [← Multiset.cons_coe, Multiset.erase_cons_head] at hAfter
  have hMine : n ∈ pool.allocated := hAfter.mem_allocated.mpr (.inl List.mem_cons_self)
  have hRented : n ∈ s.mPool.allocated := h.pool.mem_allocated.mpr (.inr List.mem_cons_self)
  refine ⟨pool, hOk, ?_⟩
  intro uid' used capacity hSize
  refine ⟨hLater, hAfter, ?_, hSize, ?_, ?_⟩
  · change pool.mUsedSize = _
    change pool.mUsedSize = s.mPool.mUsedSize - 1 at hUsed
    rw [hUsed, h.rented, List.length_cons]
    omega
  · intro hNone
    change pool.allocated = [] at hNone
    rw [hNone] at hMine
    cases hMine
  · intro _
    refine h.touched (.inl ?_)
    intro hNone
    rw [hNone] at hRented
    cases hRented

theorem Keeps.tryPop {n : Node} (h : s.Keeps uid blocks nodes (n :: list) freeList stale) :
    ∃ s', s.tryPop = .ok (some (s.nodes n).Data, s') ∧ s'.mUsedSize = s.mUsedSize - 1 ∧
      s'.mMaxCapacity = s.mMaxCapacity ∧ s'.nodes = s.nodes ∧
      s'.Keeps uid blocks nodes list (n :: freeList) stale := by
  have hSize := h.usedSize
  rw [List.length_cons] at hSize
  obtain ⟨pool, hOk, hAfter⟩ := h.giveBack
  have hKeeps := hAfter (s.mHead.UID + 1) (s.mUsedSize - 1) s.mMaxCapacity (by omega)
  refine ⟨⟨⟨s.mHead.UID + 1, s.next n⟩, pool, s.mUsedSize - 1, s.mMaxCapacity, s.nodes⟩, ?_, rfl, rfl,
    rfl, hKeeps⟩
  rw [PooledStack.tryPop, if_neg (by omega), h.linked.1]
  dsimp only
  rw [hOk]
  rfl

/-- The loop of `Clear` gives every node back. -/
theorem Keeps.clearLoop {passes : Nat} (h : s.Keeps uid blocks nodes list freeList stale)
    (hPasses : list.length ≤ passes) :
    ∃ mPool freeList', s.clearLoop passes = .ok { s with
        mHead := { s.mHead with Node := none }
        mPool := mPool } ∧
      mPool.mUsedSize = 0 ∧ freeList'.length = list.length + freeList.length ∧
      (⟨mPool, 0⟩ : PoolClient Node).Keeps uid .None blocks freeList' stale := by
  induction list generalizing s freeList passes with
  | nil =>
      have hHead : s.mHead.Node = none := h.linked
      refine ⟨s.mPool, freeList, ?_, h.rented, by simp, h.pool⟩
      obtain ⟨⟨uid, head⟩, pool, used, capacity, nodes⟩ := s
      obtain rfl : head = none := hHead
      cases passes <;> rfl
  | cons n later ih =>
      cases passes with
      | zero => cases hPasses
      | succ passes =>
          have hSize := h.usedSize
          rw [List.length_cons] at hSize
          obtain ⟨pool, hOk, hAfter⟩ := h.giveBack
          have hKeeps := hAfter s.mHead.UID s.mUsedSize s.mMaxCapacity (by omega)
          obtain ⟨mPool, freeList', hLoop, hUsed, hLength, hPool⟩ :=
            ih hKeeps (Nat.le_of_succ_le_succ hPasses)
          refine ⟨mPool, freeList', ?_, hUsed, ?_, hPool⟩
          · rw [PooledStack.clearLoop, h.linked.1]
            dsimp only
            rw [hOk]
            exact hLoop
          · rw [hLength, List.length_cons, List.length_cons]
            omega

/-- `Clear` empties the list, and goes on counting its nodes and the cached ones. -/
theorem Keeps.clear (h : s.Keeps uid blocks nodes list freeList stale) :
    ∃ mPool, s.clear = .ok { s with
        mHead := { s.mHead with Node := none }
        mMaxCapacity := 0
        mPool := mPool } ∧ mPool.mUsedSize = 0 ∧
      (⟨mPool, 0⟩ : PoolClient Node).Keeps uid .None blocks [] (list.length + freeList.length + stale) := by
  have hLength : list.length ≤ s.mPool.allocated.length := by
    have hCard := congrArg Multiset.card h.pool.places
    simp only [Multiset.card_add, Multiset.coe_card] at hCard
    omega
  obtain ⟨pool, freeList', hLoop, hUsed, hSame, hPool⟩ := h.clearLoop hLength
  obtain ⟨mPool, hClear, _, _, hNone, hAfter⟩ := hPool.clear false (.inr hUsed)
  refine ⟨mPool, ?_, hNone, hSame ▸ hAfter⟩
  change pool.clear false = .ok mPool at hClear
  rw [PooledStack.clear, hLoop]
  change (pool.clear false >>= _) = _
  rw [hClear]
  rfl

/-- `Init` does the same once more and sets the capacity. -/
theorem Keeps.init (h : s.Keeps uid blocks nodes list freeList stale) (maxCapacity : Nat) :
    ∃ mPool, s.init maxCapacity = .ok ⟨⟨0, none⟩, mPool, s.mUsedSize, maxCapacity, s.nodes⟩ ∧
      mPool.mUsedSize = 0 ∧
      (⟨mPool, 0⟩ : PoolClient Node).Keeps uid .None blocks [] (list.length + freeList.length + stale) := by
  obtain ⟨pool, hClear, hUsed, hPool⟩ := h.clear
  obtain ⟨mPool, hInit, _, hNone, hAfter⟩ := hPool.init hUsed maxCapacity
  rw [List.length_nil, Nat.zero_add] at hAfter
  refine ⟨mPool, ?_, hNone, hAfter⟩
  change pool.init maxCapacity = .ok mPool at hInit
  rw [PooledStack.init, hClear]
  change (pool.init maxCapacity >>= _) = _
  rw [hInit]
  rfl

/-- A counter that is too large sends `Push` to a pool without blocks. -/
theorem Keeps.push_fails (h : s.Keeps uid blocks nodes list [] stale) (hStale : stale ≠ 0)
    (hRoom : s.full = false) (v : Value) : s.push A v = .error .assertion := by
  have hRent : s.mPool.rent A = .error .assertion := h.pool.rent_fails hStale
  rw [PooledStack.push, hRoom, hRent]
  rfl

theorem Holds.step {op : StackOp Value} (h : s.Holds uid blocks nodes)
    (hStep : Serves (PooledStack.step A) s op s') : s'.Holds uid blocks nodes := by
  obtain ⟨list, freeList, stale, h⟩ := h
  obtain ⟨outcome, hStep⟩ := hStep
  cases op with
  | push v =>
      cases hRoom : s.full with
      | true =>
          rw [PooledStack.step, PooledStack.push, hRoom] at hStep
          cases hStep
          exact ⟨list, freeList, stale, h⟩
      | false =>
          by_cases hFound : stale = 0 ∨ freeList ≠ []
          · obtain ⟨after, n, freeList', hOk, _, _, _, _, hAfter⟩ := h.push (A := A) hRoom hFound v
            rw [PooledStack.step, hOk] at hStep
            cases hStep
            exact ⟨n :: list, freeList', stale, hAfter⟩
          · simp only [not_or, ne_eq, Classical.not_not] at hFound
            obtain ⟨hStale, rfl⟩ := hFound
            rw [PooledStack.step, h.push_fails hStale hRoom] at hStep
            cases hStep
  | tryPop =>
      cases list with
      | nil =>
          have hHead : s.mHead.Node = none := h.linked
          rw [PooledStack.step, PooledStack.tryPop, hHead] at hStep
          split at hStep <;> cases hStep
          exact ⟨[], freeList, stale, h⟩
      | cons n later =>
          obtain ⟨after, hOk, _, _, _, hAfter⟩ := h.tryPop
          rw [PooledStack.step, hOk] at hStep
          cases hStep
          exact ⟨later, n :: freeList, stale, hAfter⟩
  | clear =>
      obtain ⟨mPool, hOk, hUsed, hPool⟩ := h.clear
      rw [PooledStack.step, hOk] at hStep
      cases hStep
      exact ⟨[], [], _, h.emptied hUsed hPool _ _⟩
  | init maxCapacity =>
      obtain ⟨mPool, hOk, hUsed, hPool⟩ := h.init maxCapacity
      rw [PooledStack.step, hOk] at hStep
      cases hStep
      exact ⟨[], [], _, h.emptied hUsed hPool _ _⟩
  | getUsedSize =>
      cases hStep
      exact ⟨list, freeList, stale, h⟩

end Invariant

/-- A stack of values that takes one more while it has no more than `maxCapacity`. -/
def lifoStep (maxCapacity : Nat) (values : List Value) :
    StackOp Value → Except Failure (StackOutcome Value × List Value)
  | .push v =>
    if maxCapacity < values.length % 2 ^ 64 then .ok (.pushed false, values)
    else .ok (.pushed true, v :: values)
  | .tryPop => match values with
    | [] => .ok (.popped none, [])
    | v :: later => .ok (.popped (some v), later)
  | .clear | .init _ => .ok (.done, [])
  | .getUsedSize => .ok (.usedSize values.length, values)

/-- `NetSessionManager::Init` with these sessions. -/
def initSessions (sessions : List Value) : List (StackOp Value) :=
  .clear :: .init sessions.length :: sessions.map .push

section Behaviour

/-- The stack holds these values, and its counters are right. -/
def Represents (uid : UInt64) (blocks : Node → BlockNode Node) (nodes : Node → StackNode Node Value)
    (maxCapacity : Nat) (s : PooledStack Node Value) (values : List Value) : Prop :=
  ∃ list freeList, s.Keeps uid blocks nodes list freeList 0 ∧ s.mUsedSize = list.length ∧
    s.mMaxCapacity = maxCapacity ∧ list.map (fun n => (s.nodes n).Data) = values

theorem Represents.new (uid : UInt64) (blocks : Node → BlockNode Node)
    (nodes : Node → StackNode Node Value) (maxCapacity : Nat) :
    (newWith maxCapacity uid blocks nodes).Represents uid blocks nodes maxCapacity [] :=
  ⟨[], [], Keeps.new uid blocks nodes maxCapacity, rfl, rfl, rfl⟩

variable [DecidableEq Node] {A : Allocator Node} {s : PooledStack Node Value} {uid : UInt64}
  {blocks : Node → BlockNode Node} {nodes : Node → StackNode Node Value} {values : List Value}
  {maxCapacity : Nat}

/-- After `Init` the client cannot tell the stack from a new one. -/
def LikeNew (A : Allocator Node) (uid : UInt64) (blocks : Node → BlockNode Node)
    (nodes : Node → StackNode Node Value) (s : PooledStack Node Value) (maxCapacity : Nat) : Prop :=
  ∃ s', s.init maxCapacity = .ok s' ∧ ∀ later,
    outcomes (step A) s' later = outcomes (step A) (newWith maxCapacity uid blocks nodes) later

/-- `NetSessionManager::Init` accepts all sessions, and as many `TryPop` return them all. -/
def Obtainable (A : Allocator Node) (s : PooledStack Node Value) (sessions : List Value) : Prop :=
  outcomes (step A) s (initSessions sessions ++ List.replicate sessions.length .tryPop) =
    [.ok .done, .ok .done] ++ List.replicate sessions.length (.ok (.pushed true)) ++
      sessions.reverse.map fun session => .ok (.popped (some session))

theorem Represents.serve {op : StackOp Value} (h : s.Represents uid blocks nodes maxCapacity values)
    (hOp : op.resets = false) : ∃ outcome s' values', s.step A op = .ok (outcome, s') ∧
      lifoStep maxCapacity values op = .ok (outcome, values') ∧
      s'.Represents uid blocks nodes maxCapacity values' := by
  obtain ⟨list, freeList, hKeeps, hUsed, rfl, rfl⟩ := h
  cases op with
  | push v =>
      have hFull : s.full = decide (s.mMaxCapacity <
          (list.map (fun n => (s.nodes n).Data)).length % 2 ^ 64) := by
        rw [full, hUsed, List.length_map]
        congr 1
      cases hRoom : s.full with
      | true =>
          rw [hRoom, eq_comm, decide_eq_true_iff] at hFull
          rw [step, push, hRoom, lifoStep, if_pos hFull]
          exact ⟨_, s, _, rfl, rfl, list, freeList, hKeeps, hUsed, rfl, rfl⟩
      | false =>
          rw [hRoom, eq_comm, decide_eq_false_iff_not] at hFull
          obtain ⟨s', n, freeList', hOk, hSize, hCapacity, hApart, hNodes, hAfter⟩ :=
            hKeeps.push (A := A) hRoom (.inl rfl) v
          rw [step, hOk, lifoStep, if_neg hFull]
          refine ⟨_, s', _, rfl, rfl, n :: list, freeList', hAfter, ?_, hCapacity, ?_⟩
          · rw [hSize, hUsed, List.length_cons]
            rfl
          · rw [List.map_cons, hNodes, Function.update_self]
            congr 1
            apply List.map_congr_left
            intro m hm
            have hOther : m ≠ n := by
              rintro rfl
              exact hApart hm
            rw [Function.update_of_ne hOther]
  | tryPop =>
      cases list with
      | nil =>
          rw [step, tryPop, if_pos (by simp [hUsed])]
          exact ⟨_, s, _, rfl, rfl, [], freeList, hKeeps, hUsed, rfl, rfl⟩
      | cons n later =>
          obtain ⟨s', hOk, hSize, hCapacity, hNodes, hAfter⟩ := hKeeps.tryPop
          rw [step, hOk]
          refine ⟨_, s', _, rfl, rfl, later, n :: freeList, hAfter, ?_, hCapacity, ?_⟩
          · rw [hSize, hUsed, List.length_cons]
            omega
          · rw [hNodes]
  | clear | init capacity => cases hOp
  | getUsedSize =>
      refine ⟨_, s, _, rfl, ?_, list, freeList, hKeeps, hUsed, rfl, rfl⟩
      rw [lifoStep, List.length_map, hUsed]

/-- Until it is cleared or initialised again, a new stack is a stack of values. -/
theorem new_lifo {ops : List (StackOp Value)} (hOps : ∀ op ∈ ops, op.resets = false) :
    outcomes (step A) (newWith maxCapacity uid blocks nodes) ops =
      outcomes (lifoStep maxCapacity) [] ops :=
  outcomes_eq_of_simulation (fun hRepresents hOp => hRepresents.serve hOp)
    (Represents.new uid blocks nodes maxCapacity) hOps

omit [DecidableEq Node] in
/-- A stack of values takes `maxCapacity` values. -/
theorem lifo_push (vs : List Value) (ops : List (StackOp Value))
    (hRoom : values.length + vs.length ≤ maxCapacity + 1) :
    outcomes (lifoStep maxCapacity) values (vs.map .push ++ ops) =
      List.replicate vs.length (.ok (.pushed true)) ++
        outcomes (lifoStep maxCapacity) (vs.reverse ++ values) ops := by
  induction vs generalizing values with
  | nil => rfl
  | cons v vs ih =>
      rw [List.length_cons] at hRoom
      have hAccepted : lifoStep maxCapacity values (.push v) = .ok (.pushed true, v :: values) := by
        rw [lifoStep, if_neg]
        omega
      rw [List.map_cons, List.cons_append, outcomes_ok hAccepted, ih (by rw [List.length_cons]; omega),
        List.length_cons, List.replicate_succ, List.reverse_cons, List.append_assoc]
      rfl

omit [DecidableEq Node] in
/-- It returns them in reverse order. -/
theorem lifo_pop {count : Nat} (hCount : count = values.length) :
    outcomes (lifoStep maxCapacity) values (List.replicate count .tryPop) =
      values.map fun v => .ok (.popped (some v)) := by
  induction values generalizing count with
  | nil =>
      subst hCount
      rfl
  | cons v later ih =>
      subst hCount
      rw [List.length_cons, List.replicate_succ, List.map_cons, ← ih rfl]
      rfl

/-- A stack whose pool counts too many blocks accepts nothing. -/
theorem Keeps.rejects {list : List Node} {stale : Nat} (h : s.Keeps uid blocks nodes list [] stale)
    (hStale : stale ≠ 0) (v : Value) (later : List (StackOp Value)) :
    (outcomes (step A) s (.push v :: later)).head? ≠ some (.ok (.pushed true)) := by
  cases hRoom : s.full with
  | true =>
      have hRefused : s.step A (.push v) = .ok (.pushed false, s) := by
        rw [step, PooledStack.push, hRoom]
        rfl
      rw [outcomes_ok hRefused]
      simp
  | false =>
      have hFails : s.step A (.push v) = .error .assertion := by
        rw [step, h.push_fails hStale hRoom]
        rfl
      rw [outcomes_error hFails]
      simp

/-- What `Init` makes of a stack that never had a node. -/
theorem Keeps.init_untouched {list freeList : List Node} {stale : Nat}
    (h : s.Keeps uid blocks nodes list freeList stale) (hNone : s.mPool.allocated = []) (hStale : stale = 0)
    (maxCapacity : Nat) : s.init maxCapacity = .ok (newWith maxCapacity uid blocks nodes) := by
  obtain ⟨hUsed, hNodes⟩ := h.untouched hNone hStale
  obtain ⟨mPool, hInit, _, hPool⟩ := h.init maxCapacity
  have hCard := congrArg Multiset.card h.pool.places
  simp only [hNone, Multiset.card_add, Multiset.coe_card, List.length_nil] at hCard
  have hCached : mPool.mCachedSize = 0 := by
    have hSize : mPool.mCachedSize = ([] : List Node).length + ((list.length + freeList.length + stale : Nat) : Int) :=
      hPool.cachedSize
    rw [List.length_nil] at hSize
    omega
  obtain rfl : mPool = .new uid .None blocks := congrArg PoolClient.pool (hPool.eq_new rfl hCached)
  rw [hInit, hUsed, hNodes]
  rfl

/-- `Init` leaves a stack that had a node with a counter that is too large. -/
theorem Keeps.init_touched {list freeList : List Node} {stale : Nat}
    (h : s.Keeps uid blocks nodes list freeList stale)
    (hTouched : ¬(s.mPool.allocated = [] ∧ stale = 0)) (maxCapacity : Nat) :
    Nonempty Value ∧ ∃ s' stale', s.init maxCapacity = .ok s' ∧ stale' ≠ 0 ∧
      s'.Keeps uid blocks nodes [] [] stale' := by
  have hCard := congrArg Multiset.card h.pool.places
  simp only [Multiset.card_add, Multiset.coe_card] at hCard
  obtain ⟨mPool, hInit, hUsed, hPool⟩ := h.init maxCapacity
  refine ⟨h.touched ?_, _, _, hInit, ?_, h.emptied hUsed hPool _ _⟩
  · by_cases hNone : s.mPool.allocated = []
    · exact .inr fun hStale => hTouched ⟨hNone, hStale⟩
    · exact .inl hNone
  · intro hZero
    exact hTouched ⟨List.eq_nil_of_length_eq_zero (by omega), by omega⟩

/-- `Init` leaves a stack like a new one exactly if both counters are zero. -/
theorem likeNew_iff
    (h : Reachable (Serves (step A)) (fun _ _ => True) (PooledStack.new uid blocks nodes) s)
    (maxCapacity : Nat) :
    s.LikeNew A uid blocks nodes maxCapacity ↔ s.mUsedSize = 0 ∧ s.mPool.mCachedSize = 0 := by
  obtain ⟨list, freeList, stale, hKeeps⟩ : s.Holds uid blocks nodes :=
    h.invariant ⟨[], [], 0, Keeps.new uid blocks nodes 0⟩ fun _ hHolds _ hStep => hHolds.step hStep
  rw [hKeeps.counters_iff]
  constructor
  · intro hLike
    obtain ⟨s', hInit, hSame⟩ := hLike
    by_contra hTouched
    obtain ⟨⟨v⟩, after, stale', hOk, hStale, hAfter⟩ := hKeeps.init_touched hTouched maxCapacity
    cases hOk.symm.trans hInit
    apply hAfter.rejects (A := A) hStale v []
    rw [hSame, new_lifo (by simp [StackOp.resets])]
    exact congrArg List.head? (lifo_push [v] [] (by simp))
  · intro hUntouched
    exact ⟨_, hKeeps.init_untouched hUntouched.1 hUntouched.2 maxCapacity, fun _ => rfl⟩

/-- `Clear` frees all blocks. -/
theorem Keeps.step_clear {list freeList : List Node} {stale : Nat}
    (h : s.Keeps uid blocks nodes list freeList stale) :
    ∃ s', s.step A .clear = .ok (.done, s') ∧ s'.mPool.allocated = [] ∧
      s'.Keeps uid blocks nodes [] [] (list.length + freeList.length + stale) := by
  obtain ⟨mPool, hOk, hUsed, hPool⟩ := h.clear
  have hGone : (mPool.allocated : Multiset Node) = ([] : List Node) + 0 := hPool.places
  rw [add_zero] at hGone
  refine ⟨_, ?_, (Multiset.coe_eq_zero _).mp hGone, h.emptied hUsed hPool s.mHead.UID 0⟩
  rw [step, hOk]
  rfl

/-- A second `NetSessionManager::Init` makes all its sessions available exactly if both
counters are zero, or there is no session. -/
theorem obtainable_iff
    (h : Reachable (Serves (step A)) (fun _ _ => True) (PooledStack.new uid blocks nodes) s)
    (sessions : List Value) :
    s.Obtainable A sessions ↔ sessions = [] ∨ s.mUsedSize = 0 ∧ s.mPool.mCachedSize = 0 := by
  obtain ⟨list, freeList, stale, hKeeps⟩ : s.Holds uid blocks nodes :=
    h.invariant ⟨[], [], 0, Keeps.new uid blocks nodes 0⟩ fun _ hHolds _ hStep => hHolds.step hStep
  obtain ⟨cleared, hClear, hGone, hCleared⟩ := hKeeps.step_clear (A := A)
  have hCard := congrArg Multiset.card hKeeps.pool.places
  simp only [Multiset.card_add, Multiset.coe_card] at hCard
  rw [hKeeps.counters_iff, Obtainable, initSessions, List.cons_append, List.cons_append,
    outcomes_ok hClear]
  by_cases hUntouched : s.mPool.allocated = [] ∧ stale = 0
  · have hInit := hCleared.init_untouched hGone (by
      rw [hUntouched.1, List.length_nil] at hCard
      omega) sessions.length
    have hStep : cleared.step A (.init sessions.length) =
        .ok (.done, newWith sessions.length uid blocks nodes) := by
      rw [step, hInit]
      rfl
    have hOps : ∀ op ∈ sessions.map StackOp.push ++ List.replicate sessions.length .tryPop,
        op.resets = false := by
      intro op hMem
      obtain hPush | hPop := List.mem_append.mp hMem
      · obtain ⟨v, _, rfl⟩ := List.mem_map.mp hPush
        rfl
      · obtain rfl := List.eq_of_mem_replicate hPop
        rfl
    rw [outcomes_ok hStep, new_lifo hOps, lifo_push sessions _ (by simp), List.append_nil,
      lifo_pop (List.length_reverse).symm]
    exact ⟨fun _ => .inr hUntouched, fun _ => rfl⟩
  · obtain ⟨_, after, stale', hInit, hStale, hAfter⟩ := hCleared.init_touched (by
      intro hNone
      exact hUntouched ⟨List.eq_nil_of_length_eq_zero (by omega), by omega⟩) sessions.length
    have hStep : cleared.step A (.init sessions.length) = .ok (.done, after) := by
      rw [step, hInit]
      rfl
    rw [outcomes_ok hStep]
    cases sessions with
    | nil => simp [outcomes]
    | cons v later =>
        constructor
        · intro hAll
          refine absurd ?_ (hAfter.rejects (A := A) hStale v
            (later.map .push ++ List.replicate (v :: later).length .tryPop))
          have hFirst := congrArg (fun seen => seen.head?) (congrArg (List.drop 2) hAll)
          exact hFirst
        · intro hNo
          simp [hUntouched] at hNo

end Behaviour

section Reinitialisation

variable [DecidableEq Node]

/-- What `Clear` and `Init` come to, of a pool and of a stack in a new place of memory. -/
structure Reinitialises (A : Allocator Node) (uid : UInt64) (policy : eAllocationPolicy)
    (blocks : Node → BlockNode Node) (nodes : Node → StackNode Node Value) : Prop where
  pool : ∀ (s : PoolClient Node) (reset : PoolOp Node),
    Reachable (Serves (PoolClient.step A)) (fun _ _ => True) (PoolClient.new uid policy blocks) s →
    s.rented = 0 → reset.resets = true →
    (s.LikeNew A uid policy blocks reset ↔ s.pool.mCachedSize = 0)
  stack : ∀ (s : PooledStack Node Value) (maxCapacity : Nat),
    Reachable (Serves (step A)) (fun _ _ => True) (PooledStack.new uid blocks nodes) s →
    (s.LikeNew A uid blocks nodes maxCapacity ↔ s.mUsedSize = 0 ∧ s.mPool.mCachedSize = 0)
  sessions : ∀ (s : PooledStack Node Value) (sessions : List Value),
    Reachable (Serves (step A)) (fun _ _ => True) (PooledStack.new uid blocks nodes) s →
    (s.Obtainable A sessions ↔ sessions = [] ∨ s.mUsedSize = 0 ∧ s.mPool.mCachedSize = 0)
  /-- A new pool fails no `Rent`. -/
  newPool : ∀ (ops : List (PoolOp Node)) (failure : Failure), (∀ op ∈ ops, op.resets = false) →
    .error failure ∉ outcomes (PoolClient.step A) (PoolClient.new uid policy blocks) ops
  /-- A new stack is empty, and a stack of values for every client. -/
  newStack : ∀ (maxCapacity : Nat) (ops : List (StackOp Value)), (∀ op ∈ ops, op.resets = false) →
    outcomes (step A) (newWith maxCapacity uid blocks nodes) ops =
      outcomes (lifoStep maxCapacity) [] ops

/-- When `Init` and `Clear` make a used container as good as new: a pool exactly if it cached
nothing, a stack exactly if neither it nor its pool has anything counted. A new one is what it
should be, so the comparison says something. -/
theorem reinitialises (A : Allocator Node) (uid : UInt64) (policy : eAllocationPolicy)
    (blocks : Node → BlockNode Node) (nodes : Node → StackNode Node Value) :
    Reinitialises A uid policy blocks nodes where
  pool _ _ h hReturned hReset := PoolClient.likeNew_iff h hReturned hReset
  stack _ maxCapacity h := likeNew_iff h maxCapacity
  sessions _ sessions h := obtainable_iff h sessions
  newPool _ failure hOps := PoolClient.new_serves hOps failure
  newStack _ _ hOps := new_lifo hOps

private def above : Allocator Nat where
  malloc allocated := allocated.sum + 1
  fresh := sum_succ_not_mem

/-- One value is pushed, then the stack is initialised: it still counts the value. -/
theorem not_likeNew_of_pushed : ¬ ∀ (s : PooledStack Nat Nat) (maxCapacity : Nat),
    Reachable (Serves (step above)) (fun _ _ => True)
      (PooledStack.new 0 (fun _ => ⟨none, 0, false, 0⟩) fun _ => ⟨none, 0⟩) s →
    s.LikeNew above 0 (fun _ => ⟨none, 0, false, 0⟩) (fun _ => ⟨none, 0⟩) maxCapacity := by
  intro h
  obtain ⟨s, _, _, hOk, hUsed, _⟩ := (Keeps.new 0 (fun _ => ⟨none, 0, false, 0⟩)
    (fun _ : Nat => (⟨none, 0⟩ : StackNode Nat Nat)) 0).push (A := above) rfl (.inl rfl) 7
  have hPush : Serves (step above) (PooledStack.new 0 (fun _ => ⟨none, 0, false, 0⟩)
      fun _ : Nat => (⟨none, 0⟩ : StackNode Nat Nat)) (.push 7) s := by
    refine ⟨.pushed true, ?_⟩
    rw [step, PooledStack.new]
    change (PooledStack.push above (newWith 0 _ _ _) 7 >>= _) = _
    rw [hOk]
    rfl
  have hReached : Reachable (Serves (step above)) (fun _ _ => True)
      (PooledStack.new 0 (fun _ => ⟨none, 0, false, 0⟩) fun _ => ⟨none, 0⟩) s :=
    .tail .refl True.intro hPush
  have hZero := ((likeNew_iff hReached 1).mp (h s 1 hReached)).1
  rw [hUsed] at hZero
  cases hZero

end Reinitialisation

end PooledStack

end NfNetwork.Collections
