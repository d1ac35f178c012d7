import NfNetwork.Machinery.Chain
import NfNetwork.Machinery.Crew
import NfNetwork.ObjectPool.ObjectPoolLockFree
import Mathlib.Tactic.Abel

/-! Every block is in one place: in the free list, rented, or in the hands of a thread
that is about to return it from `Rent` or to push it in `Return`. A snapshot of `mHead`
may be torn, but one that still equals `mHead` was read together with its `Next`. -/
namespace NfNetwork.ObjectPool

open Machinery

variable {Thread Node : Type}

section Kinds

/-- The block that a thread is working on for its caller. -/
def PoolPc.hand : PoolPc Node → Multiset Node
  | .rent (.incrementMaxCapacity n) | .rent (.construct n) | .rent (.incrementUsedSize n)
  | .giveBack (.destroy n) | .giveBack (.loadNode n) | .giveBack (.loadUID n _)
  | .giveBack (.storeNext n _) | .giveBack (.compareExchange n _) => {n}
  | _ => 0

/-- Past the decrement of `mCachedSize` that lets a thread take a cached block. -/
def PoolPc.admitted : PoolPc Node → Bool
  | .rent .loadNode | .rent (.loadUID _) | .rent (.loadNext _) | .rent (.compareExchange _ _) => true
  | _ => false

/-- Past the decrement of `mCachedSize` that finds no cached block. -/
def PoolPc.refused : PoolPc Node → Bool
  | .rent .incrementCachedSize => true
  | _ => false

/-- Past the push that `mCachedSize` does not count yet. -/
def PoolPc.pushed : PoolPc Node → Bool
  | .giveBack .incrementCachedSize => true
  | _ => false

/-- With a block that `mMaxCapacity` does not count yet. -/
def PoolPc.allocated : PoolPc Node → Bool
  | .rent (.incrementMaxCapacity _) => true
  | _ => false

def PoolPc.returning : PoolPc Node → Bool
  | .giveBack _ => true
  | _ => false

end Kinds

section Exchanges

variable [DecidableEq Node]

/-- About to take the first cached block. -/
def PoolPc.takes (pool : ObjectPoolLockFree Node) : PoolPc Node → Bool
  | .rent (.compareExchange headSnapshot _) => pool.mHead = headSnapshot
  | _ => false

/-- About to put its block in front of the cached ones. -/
def PoolPc.pushes (pool : ObjectPoolLockFree Node) : PoolPc Node → Bool
  | .giveBack (.compareExchange _ headSnapshot) => pool.mHead = headSnapshot
  | _ => false

end Exchanges

/-- The blocks in the hands of threads. -/
def PoolSystem.hands [Fintype Thread] (s : PoolSystem Thread Node) : Multiset Node :=
  crewTotal PoolPc.hand s.threads

/-- The blocks that `mHead` leads to. -/
def ObjectPoolLockFree.FreeList (pool : ObjectPoolLockFree Node) (freeList : List Node) : Prop :=
  Chain pool.next pool.mHead.Node freeList none

/-- What the pool promises. -/
structure PoolSystem.OneHolder [Fintype Thread] (s : PoolSystem Thread Node) : Prop where
  /-- Nobody else holds an object that `Rent` returns or has returned. -/
  oneHolder : (s.hands + s.rented).Nodup
  /-- An admitted thread finds a block. -/
  notNull : ∀ t, (s.threads t).admitted = true → s.pool.mHead.Node ≠ none
  notCrashed : ∀ t, s.threads t ≠ .crashed
  /-- Each block is in the free list unless somebody holds it. -/
  kept : ∃ freeList, s.pool.FreeList freeList ∧ s.pool.allocated.Nodup ∧
    (s.pool.allocated : Multiset Node) = freeList + s.hands + s.rented
  /-- The counters agree when no operation is in progress. -/
  counted : (∀ t, s.threads t = .idle) → ∀ freeList, s.pool.FreeList freeList →
    s.pool.mCachedSize = freeList.length ∧ s.pool.mMaxCapacity = s.pool.mUsedSize + s.pool.mCachedSize

section Counters

variable [Fintype Thread]

/-- The counters against what they count: the cached blocks, the threads between a
counter and the list, the rented objects and all blocks. -/
structure Counted (pool : ObjectPoolLockFree Node) (threads : Thread → PoolPc Node)
    (cached rented : Nat) : Prop where
  cachedSize : (cached : Int) = pool.mCachedSize + crewCount PoolPc.admitted threads +
    crewCount PoolPc.refused threads + crewCount PoolPc.pushed threads
  enough : 0 ≤ pool.mCachedSize + crewCount PoolPc.refused threads
  usedSize : pool.mUsedSize = rented + crewCount PoolPc.returning threads
  maxCapacity : pool.mMaxCapacity + crewCount PoolPc.allocated threads = pool.allocated.length

variable {pool : ObjectPoolLockFree Node} {threads : Thread → PoolPc Node} {cached rented : Nat}
  {t : Thread}

/-- The list holds a block for every admitted thread. -/
theorem Counted.cached_pos (h : Counted pool threads cached rented)
    (hAdmitted : (threads t).admitted = true) : 0 < cached := by
  have hSize := h.cachedSize
  have hEnough := h.enough
  have hThread := crewCount_pos hAdmitted
  omega

/-- With every thread outside, the counters are the sizes. -/
theorem Counted.of_idle (h : Counted pool threads cached rented) (hIdle : ∀ t, threads t = .idle) :
    pool.mCachedSize = cached ∧ pool.mUsedSize = rented ∧ pool.mMaxCapacity = pool.allocated.length := by
  have hZero : ∀ kind : PoolPc Node → Bool, kind .idle = false → crewCount kind threads = 0 :=
    fun kind hKind => crewCount_eq_zero fun t => by rw [hIdle t, hKind]
  have hSize := h.cachedSize
  have hUsed := h.usedSize
  have hMax := h.maxCapacity
  simp only [hZero PoolPc.admitted rfl, hZero PoolPc.refused rfl, hZero PoolPc.pushed rfl,
    hZero PoolPc.returning rfl, hZero PoolPc.allocated rfl] at hSize hUsed hMax
  omega

variable [DecidableEq Thread] [DecidableEq Node] {a : PoolAdvance Node} {block : Option Node}
  {cached' : Nat}

attribute [local simp] PoolPc.admitted PoolPc.refused PoolPc.pushed PoolPc.returning
  PoolPc.allocated PoolPc.takes PoolPc.pushes
  ObjectPoolLockFree.storeObject ObjectPoolLockFree.storeNext
  ObjectPoolLockFree.allocateFreeBlockNodes

/-- Every step that does not crash moves its thread from one count to another. -/
theorem Counted.run (h : Counted pool threads cached rented)
    (hStep : (threads t).step pool block = some a) (hAlive : a.pc ≠ .crashed)
    (hCached : cached' + ((threads t).takes pool).toNat =
      cached + ((threads t).pushes pool).toNat) :
    Counted a.pool (Function.update threads t a.pc) cached' (rented + a.rented.toList.length) := by
  have hAdmitted := crewCount_update PoolPc.admitted threads t a.pc
  have hRefused := crewCount_update PoolPc.refused threads t a.pc
  have hPushed := crewCount_update PoolPc.pushed threads t a.pc
  have hReturning := crewCount_update PoolPc.returning threads t a.pc
  have hAllocated := crewCount_update PoolPc.allocated threads t a.pc
  obtain ⟨hSize, hEnough, hUsed, hMax⟩ := h
  cases hPc : threads t with
  | idle | crashed =>
      rw [hPc] at hStep
      cases hStep
  | rent pc =>
      rw [hPc] at hStep hAdmitted hRefused hPushed hReturning hAllocated hCached
      cases pc
      all_goals simp only [PoolPc.step, RentPc.step] at hStep
      all_goals repeat' split at hStep
      all_goals cases hStep
      all_goals simp_all
      all_goals constructor
      all_goals try simp only [List.length_cons]
      all_goals omega
  | giveBack pc =>
      rw [hPc] at hStep hAdmitted hRefused hPushed hReturning hAllocated hCached
      cases pc
      all_goals simp only [PoolPc.step, ReturnPc.step] at hStep
      all_goals repeat' split at hStep
      all_goals cases hStep
      all_goals simp_all
      all_goals constructor
      all_goals try dsimp only
      all_goals omega

end Counters

section Snapshots

/-- A snapshot of `mHead`: a block, and a tag that is not from the future. -/
def Indexer.Stamped (pool : ObjectPoolLockFree Node) (uid : UInt64) (updates : Nat)
    (snapshot : Indexer Node) : Prop :=
  (∃ n ∈ pool.allocated, snapshot.Node = some n) ∧
    ∃ k, k ≤ updates ∧ snapshot.UID = uid + UInt64.ofNat k

/-- What a thread relies on after so many updates of `mHead`. Its snapshot may be out
of date, but not the `Next` it read if the exchange will succeed. -/
def PoolPc.Sound (pool : ObjectPoolLockFree Node) (uid : UInt64) (updates : Nat) :
    PoolPc Node → Prop
  | .rent (.loadUID node) => ∃ n ∈ pool.allocated, node = some n
  | .rent (.loadNext headSnapshot) => headSnapshot.Stamped pool uid updates
  | .rent (.compareExchange headSnapshot next) => headSnapshot.Stamped pool uid updates ∧
      (pool.mHead = headSnapshot → ∀ n, headSnapshot.Node = some n → next = pool.next n)
  | .giveBack (.compareExchange curNode headSnapshot) => pool.next curNode = headSnapshot.Node
  | .crashed => False
  | _ => True

variable {pool pool' : ObjectPoolLockFree Node} {uid : UInt64} {updates updates' : Nat}
  {snapshot : Indexer Node} {pc : PoolPc Node}

/-- A tag names one update as long as the tags have not wrapped around. -/
theorem tag_inj {j k : Nat} (hj : j < 2 ^ 64) (hk : k < 2 ^ 64)
    (h : uid + UInt64.ofNat j = uid + UInt64.ofNat k) : j = k := by
  have hTag : UInt64.ofNat j = UInt64.ofNat k := by simpa using h
  have hNat := congrArg UInt64.toNat hTag
  rwa [UInt64.toNat_ofNat_of_lt' hj, UInt64.toNat_ofNat_of_lt' hk] at hNat

/-- The tag after one more update of the head. -/
theorem tag_succ : uid + UInt64.ofNat updates + 1 = uid + UInt64.ofNat (updates + 1) := by
  rw [UInt64.add_assoc, UInt64.ofNat_add]
  rfl

/-- The next tag is on no snapshot. -/
theorem Indexer.Stamped.ne_update (h : snapshot.Stamped pool uid updates)
    (hTag : pool.mHead.UID = uid + UInt64.ofNat updates) (hBudget : updates + 1 < 2 ^ 64)
    (node : Option Node) : (⟨pool.mHead.UID + 1, node⟩ : Indexer Node) ≠ snapshot := by
  rintro rfl
  obtain ⟨_, k, hk, hSame⟩ := h
  rw [hTag, tag_succ] at hSame
  have hPast := tag_inj hBudget (by omega) hSame
  omega

/-- A snapshot stays one of the past. -/
theorem Indexer.Stamped.frame (h : snapshot.Stamped pool uid updates)
    (hAllocated : pool.allocated ⊆ pool'.allocated) (hUpdates : updates ≤ updates') :
    snapshot.Stamped pool' uid updates' := by
  obtain ⟨⟨n, hMem, hNode⟩, k, hk, hTag⟩ := h
  exact ⟨⟨n, hAllocated hMem, hNode⟩, k, hk.trans hUpdates, hTag⟩

/-- Other threads may update `mHead` and write the `Next` of blocks that are neither
first in the list nor in this thread's hands. -/
theorem PoolPc.Sound.frame (h : pc.Sound pool uid updates)
    (hAllocated : pool.allocated ⊆ pool'.allocated) (hUpdates : updates ≤ updates')
    (hHead : pool'.mHead = pool.mHead ∨
      ∀ snapshot : Indexer Node, snapshot.Stamped pool uid updates → pool'.mHead ≠ snapshot)
    (hNext : ∀ n, n ∈ pc.hand ∨ pool.mHead.Node = some n → pool'.next n = pool.next n) :
    pc.Sound pool' uid updates' := by
  cases pc with
  | idle => trivial
  | crashed => exact h
  | rent pc =>
      cases pc with
      | loadUID node =>
          obtain ⟨n, hMem, hNode⟩ := h
          exact ⟨n, hAllocated hMem, hNode⟩
      | loadNext headSnapshot => exact Indexer.Stamped.frame h hAllocated hUpdates
      | compareExchange headSnapshot next =>
          obtain ⟨hStamped, hRead⟩ := h
          refine ⟨hStamped.frame hAllocated hUpdates, ?_⟩
          intro hNow n hNode
          have hSame : pool'.mHead = pool.mHead := by
            cases hHead with
            | inl hSame => exact hSame
            | inr hNew => exact absurd hNow (hNew headSnapshot hStamped)
          rw [hSame] at hNow
          rw [hNext n (.inr (hNow ▸ hNode))]
          exact hRead hNow n hNode
      | _ => trivial
  | giveBack pc =>
      cases pc with
      | compareExchange curNode headSnapshot =>
          exact (hNext curNode (.inl (Multiset.mem_singleton_self curNode))).trans h
      | _ => trivial

variable [DecidableEq Node] {a : PoolAdvance Node} {block : Option Node}

/-- What a step does to the list and to the block in the thread's hands. -/
inductive PoolPc.Moves (pool : ObjectPoolLockFree Node) : PoolPc Node → PoolAdvance Node → Prop where
  | quiet {pc : PoolPc Node} {a : PoolAdvance Node} (hHead : a.pool.mHead = pool.mHead)
      (hAllocated : a.pool.allocated = pool.allocated) (hNext : a.pool.next = pool.next)
      (hGuarded : ∀ n, (a.pool.nodes n).guarded = (pool.nodes n).guarded)
      (hHand : a.pc.hand + a.rented.elim 0 (fun n => {n}) = pc.hand)
      (hTakes : pc.takes pool = false) (hPushes : pc.pushes pool = false) : Moves pool pc a
  | allocate {n : Node} (hFresh : n ∉ pool.allocated) : Moves pool (.rent .allocateFreeBlockNodes)
      ⟨pool.allocateFreeBlockNodes n, .rent (.incrementMaxCapacity n), none⟩
  | link {n : Node} {headSnapshot : Indexer Node} : Moves pool (.giveBack (.storeNext n headSnapshot))
      ⟨pool.storeNext n headSnapshot.Node, .giveBack (.compareExchange n headSnapshot), none⟩
  | take {n : Node} {next : Option Node} (hHead : pool.mHead.Node = some n) :
      Moves pool (.rent (.compareExchange pool.mHead next))
        ⟨{ pool with mHead := ⟨pool.mHead.UID + 1, next⟩ }, .rent (.construct n), none⟩
  | push {n : Node} : Moves pool (.giveBack (.compareExchange n pool.mHead))
      ⟨{ pool with mHead := ⟨pool.mHead.UID + 1, some n⟩ }, .giveBack .incrementCachedSize, none⟩

/-- Whatever a thread does to the pool is one of a few moves. -/
theorem PoolPc.moves (hStep : pc.step pool block = some a) (hAlive : a.pc ≠ .crashed) :
    pc.Moves pool a := by
  cases pc with
  | idle | crashed => cases hStep
  | rent pc =>
      cases pc with
      | allocateFreeBlockNodes =>
          cases block with
          | none =>
              cases hStep
              exact .quiet rfl rfl rfl (fun _ => rfl) rfl rfl rfl
          | some n =>
              simp only [PoolPc.step, RentPc.step] at hStep
              split at hStep
              · cases hStep
              · rename_i hFresh
                cases hStep
                exact .allocate hFresh
      | compareExchange headSnapshot next =>
          simp only [PoolPc.step, RentPc.step] at hStep
          split at hStep
          · rename_i head hError
            have hNot := (ObjectPoolLockFree.compareExchangeHead_eq_error.mp hError).1
            cases hStep
            exact .quiet rfl rfl rfl (fun _ => rfl) rfl (decide_eq_false hNot) rfl
          · rename_i pool' hOk
            obtain ⟨rfl, rfl⟩ := ObjectPoolLockFree.compareExchangeHead_eq_ok.mp hOk
            cases hNode : pool.mHead.Node with
            | none =>
                rw [hNode] at hStep
                cases hStep
                exact absurd rfl hAlive
            | some n =>
                rw [hNode] at hStep
                cases hStep
                exact .take hNode
      | decrementCachedSize =>
          cases hStep
          refine .quiet rfl rfl rfl (fun _ => rfl) ?_ rfl rfl
          dsimp only
          split <;> rfl
      | construct n =>
          simp only [PoolPc.step, RentPc.step] at hStep
          split at hStep
          · cases hStep
            split
            · exact .quiet rfl rfl (pool.storeObject_next n true)
                (pool.storeObject_guarded n true) rfl rfl rfl
            · exact .quiet rfl rfl rfl (fun _ => rfl) rfl rfl rfl
          · cases hStep
            exact absurd rfl hAlive
      | loadNext headSnapshot =>
          simp only [PoolPc.step, RentPc.step] at hStep
          split at hStep <;> cases hStep
          · exact absurd rfl hAlive
          · exact .quiet rfl rfl rfl (fun _ => rfl) rfl rfl rfl
      | incrementUsedSize n =>
          cases hStep
          exact .quiet rfl rfl rfl (fun _ => rfl) (Multiset.zero_add _) rfl rfl
      | _ =>
          cases hStep
          exact .quiet rfl rfl rfl (fun _ => rfl) rfl rfl rfl
  | giveBack pc =>
      cases pc with
      | destroy n =>
          simp only [PoolPc.step, ReturnPc.step] at hStep
          split at hStep <;> cases hStep
          · split
            · exact .quiet rfl rfl (pool.storeObject_next n false)
                (pool.storeObject_guarded n false) rfl rfl rfl
            · exact .quiet rfl rfl rfl (fun _ => rfl) rfl rfl rfl
          · exact absurd rfl hAlive
      | storeNext n headSnapshot =>
          cases hStep
          exact .link
      | compareExchange n headSnapshot =>
          simp only [PoolPc.step, ReturnPc.step] at hStep
          split at hStep
          · rename_i head hError
            have hNot := (ObjectPoolLockFree.compareExchangeHead_eq_error.mp hError).1
            cases hStep
            exact .quiet rfl rfl rfl (fun _ => rfl) rfl rfl (decide_eq_false hNot)
          · rename_i pool' hOk
            obtain ⟨rfl, rfl⟩ := ObjectPoolLockFree.compareExchangeHead_eq_ok.mp hOk
            cases hStep
            exact .push
      | _ =>
          cases hStep
          exact .quiet rfl rfl rfl (fun _ => rfl) rfl rfl rfl

/-- No step dereferences a null pointer or finds a memory guard overwritten. -/
theorem PoolPc.step_alive (h : pc.Sound pool uid updates)
    (hGuarded : ∀ n ∈ pc.hand, (pool.nodes n).guarded = true)
    (hStep : pc.step pool block = some a) : a.pc ≠ .crashed := by
  cases pc with
  | idle | crashed => cases hStep
  | rent pc =>
      cases pc with
      | loadNext headSnapshot =>
          obtain ⟨⟨n, _, hNode⟩, _⟩ := h
          simp only [PoolPc.step, RentPc.step, hNode] at hStep
          cases hStep
          simp
      | compareExchange headSnapshot next =>
          obtain ⟨⟨⟨n, _, hNode⟩, _⟩, _⟩ := h
          simp only [PoolPc.step, RentPc.step, hNode] at hStep
          split at hStep <;> cases hStep <;> simp
      | construct n =>
          simp only [PoolPc.step, RentPc.step, hGuarded n (Multiset.mem_singleton_self n)] at hStep
          cases hStep
          simp
      | allocateFreeBlockNodes =>
          simp only [PoolPc.step, RentPc.step] at hStep
          repeat' split at hStep
          all_goals cases hStep
          all_goals simp
      | _ =>
          cases hStep
          simp
  | giveBack pc =>
      cases pc with
      | destroy n =>
          simp only [PoolPc.step, ReturnPc.step, hGuarded n (Multiset.mem_singleton_self n)] at hStep
          cases hStep
          simp
      | compareExchange n headSnapshot =>
          simp only [PoolPc.step, ReturnPc.step] at hStep
          split at hStep <;> cases hStep <;> simp
      | _ =>
          cases hStep
          simp [ReturnPc.step]

/-- What a thread relies on after its own step. -/
theorem PoolPc.step_sound (h : pc.Sound pool uid updates)
    (hTag : pool.mHead.UID = uid + UInt64.ofNat updates)
    (hHead : pc.admitted = true → ∃ n ∈ pool.allocated, pool.mHead.Node = some n)
    (hStep : pc.step pool block = some a) (hAlive : a.pc ≠ .crashed) :
    a.pc.Sound a.pool uid updates := by
  cases pc with
  | idle | crashed => cases hStep
  | rent pc =>
      cases pc with
      | decrementCachedSize =>
          cases hStep
          dsimp only
          split <;> trivial
      | allocateFreeBlockNodes =>
          simp only [PoolPc.step, RentPc.step] at hStep
          repeat' split at hStep
          all_goals cases hStep
          all_goals trivial
      | loadNode =>
          cases hStep
          exact hHead rfl
      | loadUID node =>
          cases hStep
          exact ⟨h, updates, Nat.le_refl _, hTag⟩
      | loadNext headSnapshot =>
          have hNode := h.1
          obtain ⟨n, _, hNode⟩ := hNode
          simp only [PoolPc.step, RentPc.step, hNode] at hStep
          cases hStep
          refine ⟨h, ?_⟩
          intro _ m hm
          cases hNode.symm.trans hm
          rfl
      | compareExchange headSnapshot next =>
          simp only [PoolPc.step, RentPc.step] at hStep
          split at hStep
          · rename_i head hError
            rw [(ObjectPoolLockFree.compareExchangeHead_eq_error.mp hError).2] at hStep
            cases hStep
            exact ⟨hHead rfl, updates, Nat.le_refl _, hTag⟩
          · split at hStep <;> cases hStep
            · exact absurd rfl hAlive
            · trivial
      | construct n =>
          simp only [PoolPc.step, RentPc.step] at hStep
          split at hStep <;> cases hStep
          · trivial
          · exact absurd rfl hAlive
      | _ =>
          cases hStep
          trivial
  | giveBack pc =>
      cases pc with
      | destroy n =>
          simp only [PoolPc.step, ReturnPc.step] at hStep
          split at hStep <;> cases hStep
          · trivial
          · exact absurd rfl hAlive
      | storeNext n headSnapshot =>
          cases hStep
          exact (congrFun (pool.storeNext_next n _) n).trans (Function.update_self ..)
      | compareExchange n headSnapshot =>
          simp only [PoolPc.step, ReturnPc.step] at hStep
          split at hStep <;> cases hStep <;> trivial
      | _ =>
          cases hStep
          trivial

end Snapshots

section Places

variable [Fintype Thread]

/-- Where the blocks are after so many updates of `mHead`, and what the threads know. -/
structure PoolSystem.Shaped (s : PoolSystem Thread Node) (uid : UInt64) (updates : Nat)
    (freeList : List Node) : Prop where
  list : s.pool.FreeList freeList
  nodup : s.pool.allocated.Nodup
  places : (s.pool.allocated : Multiset Node) = freeList + s.hands + s.rented
  guarded : ∀ n ∈ s.pool.allocated, (s.pool.nodes n).guarded = true
  tag : s.pool.mHead.UID = uid + UInt64.ofNat updates
  sound : ∀ t, (s.threads t).Sound s.pool uid updates

variable {s : PoolSystem Thread Node} {uid : UInt64} {updates : Nat} {freeList : List Node}
  {t t' : Thread} {n : Node}

/-- An allocated block is free, in a thread's hand or rented. -/
theorem PoolSystem.Shaped.mem_allocated (h : s.Shaped uid updates freeList) :
    n ∈ s.pool.allocated ↔ n ∈ freeList ∨ n ∈ s.hands ∨ n ∈ s.rented := by
  rw [← Multiset.mem_coe, h.places, Multiset.mem_add, Multiset.mem_add, Multiset.mem_coe, or_assoc]

/-- What a thread has in its hand is allocated. -/
theorem PoolSystem.Shaped.allocated_of_hand (h : s.Shaped uid updates freeList)
    (hHand : n ∈ (s.threads t).hand) : n ∈ s.pool.allocated := by
  classical
  rw [h.mem_allocated, PoolSystem.hands, crewTotal_split _ _ t]
  exact .inr (.inl (Multiset.mem_add.mpr (.inl hHand)))

/-- So is the head. -/
theorem PoolSystem.Shaped.allocated_of_head (h : s.Shaped uid updates freeList)
    (hHead : s.pool.mHead.Node = some n) : n ∈ s.pool.allocated := by
  have hList := h.list
  rw [ObjectPoolLockFree.FreeList, hHead] at hList
  obtain ⟨later, rfl, _⟩ := hList.eq_cons
  exact h.mem_allocated.mpr (.inl List.mem_cons_self)

/-- The block in a thread's hands is in no other place. -/
theorem PoolSystem.Shaped.hand_apart [DecidableEq Thread] (h : s.Shaped uid updates freeList)
    (hHand : n ∈ (s.threads t).hand) :
    n ∉ freeList ∧ n ∉ crewOthers PoolPc.hand s.threads t ∧ n ∉ s.rented := by
  have hNodup : (freeList + s.hands + s.rented : Multiset Node).Nodup := by
    rw [← h.places]
    exact h.nodup
  rw [PoolSystem.hands, crewTotal_split _ _ t] at hNodup
  obtain ⟨hHeld, _, hRented⟩ := Multiset.nodup_add.mp hNodup
  obtain ⟨_, hHands, hList⟩ := Multiset.nodup_add.mp hHeld
  have hAll : n ∈ (s.threads t).hand + crewOthers PoolPc.hand s.threads t :=
    Multiset.mem_add.mpr (.inl hHand)
  refine ⟨fun hMem => ?_, fun hMem => ?_, fun hMem => ?_⟩
  · exact Multiset.disjoint_left.mp hList (Multiset.mem_coe.mpr hMem) hAll
  · exact Multiset.disjoint_left.mp (Multiset.nodup_add.mp hHands).2.2 hHand hMem
  · exact Multiset.disjoint_left.mp hRented (Multiset.mem_add.mpr (.inr hAll)) hMem

/-- A block in a hand is not the head. -/
theorem PoolSystem.Shaped.head_ne_hand (h : s.Shaped uid updates freeList)
    (hHand : n ∈ (s.threads t).hand) : s.pool.mHead.Node ≠ some n := by
  classical
  intro hHead
  have hList := h.list
  rw [ObjectPoolLockFree.FreeList, hHead] at hList
  obtain ⟨later, rfl, _⟩ := hList.eq_cons
  exact (h.hand_apart hHand).1 List.mem_cons_self

variable [DecidableEq Thread] {a : PoolAdvance Node} {block : Option Node}
/-- The moving thread and the others still know what they rely on. -/
theorem PoolSystem.Shaped.sound_advance {updates' : Nat} (h : s.Shaped uid updates freeList)
    (hSelf : a.pc.Sound a.pool uid updates')
    (hOthers : ∀ t', t' ≠ t → (s.threads t').Sound s.pool uid updates →
      (s.threads t').Sound a.pool uid updates') (t' : Thread) :
    ((s.advance t a).threads t').Sound (s.advance t a).pool uid updates' :=
  forall_update h.sound hSelf hOthers t'

/-- A step that leaves head, links and blocks alone keeps the shape. -/
theorem PoolSystem.Shaped.quiet (h : s.Shaped uid updates freeList)
    (hHead : a.pool.mHead = s.pool.mHead) (hAllocated : a.pool.allocated = s.pool.allocated)
    (hNext : a.pool.next = s.pool.next)
    (hGuarded : ∀ n, (a.pool.nodes n).guarded = (s.pool.nodes n).guarded)
    (hHand : a.pc.hand + a.rented.elim 0 (fun n => {n}) = (s.threads t).hand)
    (hSelf : a.pc.Sound a.pool uid updates) : (s.advance t a).Shaped uid updates freeList where
  list := by
    rw [ObjectPoolLockFree.FreeList, PoolSystem.advance, hHead, hNext]
    exact h.list
  nodup := by
    rw [PoolSystem.advance, hAllocated]
    exact h.nodup
  places := by
    rw [PoolSystem.hands, PoolSystem.advance, hAllocated, h.places, PoolSystem.hands,
      crewTotal_split _ _ t, crewTotal_update, ← hHand]
    dsimp only
    ac_rfl
  guarded n hn := by
    rw [PoolSystem.advance, hAllocated] at hn
    rw [PoolSystem.advance, hGuarded]
    exact h.guarded n hn
  tag := by
    rw [PoolSystem.advance, hHead]
    exact h.tag
  sound := h.sound_advance hSelf fun t' _ hSound => hSound.frame
    (hAllocated ▸ List.Subset.refl _) (Nat.le_refl _) (.inl hHead) fun n _ => congrFun hNext n

/-- A thread takes the first block: the `Next` it read is still the block's. -/
theorem PoolSystem.Shaped.take {next : Option Node} (h : s.Shaped uid updates freeList)
    (hPc : s.threads t = .rent (.compareExchange s.pool.mHead next))
    (hHead : s.pool.mHead.Node = some n) (hBudget : updates + 1 < 2 ^ 64) :
    ∃ later, freeList = n :: later ∧
      (s.advance t ⟨{ s.pool with mHead := ⟨s.pool.mHead.UID + 1, next⟩ },
        .rent (.construct n), none⟩).Shaped uid (updates + 1) later := by
  have hList := h.list
  rw [ObjectPoolLockFree.FreeList, hHead] at hList
  obtain ⟨later, rfl, hLater⟩ := hList.eq_cons
  have hSound := h.sound t
  rw [hPc] at hSound
  have hRead : next = s.pool.next n := hSound.2 rfl n hHead
  refine ⟨later, rfl, ?_, h.nodup, ?_, h.guarded, ?_, ?_⟩
  · rw [hRead]
    exact hLater
  · have hPlaces := h.places
    rw [PoolSystem.hands, crewTotal_split _ _ t, hPc] at hPlaces
    rw [PoolSystem.hands, PoolSystem.advance, crewTotal_update]
    simp only [PoolPc.hand, Option.elim_none, ← Multiset.cons_coe, ← Multiset.singleton_add]
      at hPlaces ⊢
    rw [hPlaces]
    abel
  · exact (congrArg (· + 1) h.tag).trans tag_succ
  · refine h.sound_advance True.intro ?_
    intro t' _ hOther
    exact hOther.frame (List.Subset.refl _) (Nat.le_succ _)
      (.inr fun snapshot hStamped => hStamped.ne_update h.tag hBudget next) fun _ _ => rfl

/-- A thread puts its block in front of the first one. -/
theorem PoolSystem.Shaped.push (h : s.Shaped uid updates freeList)
    (hPc : s.threads t = .giveBack (.compareExchange n s.pool.mHead))
    (hBudget : updates + 1 < 2 ^ 64) :
    (s.advance t ⟨{ s.pool with mHead := ⟨s.pool.mHead.UID + 1, some n⟩ },
      .giveBack .incrementCachedSize, none⟩).Shaped uid (updates + 1) (n :: freeList) := by
  have hSound := h.sound t
  rw [hPc] at hSound
  have hWritten : s.pool.next n = s.pool.mHead.Node := hSound
  refine ⟨⟨rfl, ?_⟩, h.nodup, ?_, h.guarded, ?_, ?_⟩
  · have hList := h.list
    rw [ObjectPoolLockFree.FreeList, ← hWritten] at hList
    exact hList
  · have hPlaces := h.places
    rw [PoolSystem.hands, crewTotal_split _ _ t, hPc] at hPlaces
    rw [PoolSystem.hands, PoolSystem.advance, crewTotal_update]
    simp only [PoolPc.hand, Option.elim_none, ← Multiset.cons_coe, ← Multiset.singleton_add]
      at hPlaces ⊢
    rw [hPlaces]
    abel
  · exact (congrArg (· + 1) h.tag).trans tag_succ
  · refine h.sound_advance True.intro ?_
    intro t' _ hOther
    exact hOther.frame (List.Subset.refl _) (Nat.le_succ _)
      (.inr fun snapshot hStamped => hStamped.ne_update h.tag hBudget (some n)) fun _ _ => rfl

variable [DecidableEq Node]

/-- `malloc` returns a block that is nowhere yet. -/
theorem PoolSystem.Shaped.allocate (h : s.Shaped uid updates freeList)
    (hPc : s.threads t = .rent .allocateFreeBlockNodes) (hFresh : n ∉ s.pool.allocated) :
    (s.advance t ⟨s.pool.allocateFreeBlockNodes n, .rent (.incrementMaxCapacity n), none⟩).Shaped
      uid updates freeList where
  list := by
    rw [ObjectPoolLockFree.FreeList, PoolSystem.advance, s.pool.allocateFreeBlockNodes_next]
    exact h.list.update (fun hMem => hFresh (h.mem_allocated.mpr (.inl hMem))) none
  nodup := List.nodup_cons.mpr ⟨hFresh, h.nodup⟩
  places := by
    have hPlaces := h.places
    rw [PoolSystem.hands, crewTotal_split _ _ t, hPc] at hPlaces
    rw [PoolSystem.hands, PoolSystem.advance, crewTotal_update]
    simp only [ObjectPoolLockFree.allocateFreeBlockNodes, PoolPc.hand, Option.elim_none,
      ← Multiset.cons_coe, ← Multiset.singleton_add] at hPlaces ⊢
    rw [hPlaces]
    abel
  guarded m hm := by
    apply s.pool.allocateFreeBlockNodes_guarded
    intro hOther
    exact h.guarded m (List.mem_of_ne_of_mem hOther hm)
  tag := h.tag
  sound := by
    refine h.sound_advance True.intro ?_
    intro t' _ hSound
    refine hSound.frame (List.subset_cons_self n _) (Nat.le_refl _) (.inl rfl) ?_
    intro m hm
    rw [s.pool.allocateFreeBlockNodes_next]
    apply Function.update_of_ne
    rintro rfl
    cases hm with
    | inl hHand => exact hFresh (h.allocated_of_hand hHand)
    | inr hHead => exact hFresh (h.allocated_of_head hHead)

/-- `Return` writes the `Next` of a block that only it holds. -/
theorem PoolSystem.Shaped.link {headSnapshot : Indexer Node} (h : s.Shaped uid updates freeList)
    (hPc : s.threads t = .giveBack (.storeNext n headSnapshot))
    (hSelf : (PoolPc.giveBack (.compareExchange n headSnapshot)).Sound
      (s.pool.storeNext n headSnapshot.Node) uid updates) :
    (s.advance t ⟨s.pool.storeNext n headSnapshot.Node,
      .giveBack (.compareExchange n headSnapshot), none⟩).Shaped uid updates freeList := by
  have hHand : n ∈ (s.threads t).hand := by
    rw [hPc]
    exact Multiset.mem_singleton_self n
  obtain ⟨hList, hOthers, _⟩ := h.hand_apart hHand
  refine ⟨?_, h.nodup, ?_, ?_, h.tag, ?_⟩
  · rw [ObjectPoolLockFree.FreeList, PoolSystem.advance, s.pool.storeNext_next]
    exact h.list.update hList _
  · have hPlaces := h.places
    rw [PoolSystem.hands, crewTotal_split _ _ t, hPc] at hPlaces
    rw [PoolSystem.hands, PoolSystem.advance, crewTotal_update, Option.elim_none, zero_add]
    exact hPlaces
  · intro m hm
    exact (s.pool.storeNext_guarded n _ m).trans (h.guarded m hm)
  · refine h.sound_advance hSelf ?_
    intro t' hOther hSound
    refine hSound.frame (List.Subset.refl _) (Nat.le_refl _) (.inl rfl) ?_
    intro m hm
    rw [s.pool.storeNext_next]
    apply Function.update_of_ne
    rintro rfl
    cases hm with
    | inl hMine => exact hOthers (mem_crewOthers hOther hMine)
    | inr hHead => exact h.head_ne_hand hHand hHead

/-- One step keeps every block in one place. -/
theorem PoolSystem.Shaped.run (h : s.Shaped uid updates freeList)
    (hAdmitted : (s.threads t).admitted = true → s.pool.mHead.Node ≠ none)
    (hStep : (s.threads t).step s.pool block = some a)
    (hBudget : updates + s.headUpdate (s.advance t a) < 2 ^ 64) : a.pc ≠ .crashed ∧
      ∃ freeList', (s.advance t a).Shaped uid (updates + s.headUpdate (s.advance t a)) freeList' ∧
        freeList'.length + ((s.threads t).takes s.pool).toNat =
          freeList.length + ((s.threads t).pushes s.pool).toNat := by
  have hAlive := PoolPc.step_alive (h.sound t)
    (fun n hn => h.guarded n (h.allocated_of_hand hn)) hStep
  have hFirst : (s.threads t).admitted = true →
      ∃ n ∈ s.pool.allocated, s.pool.mHead.Node = some n := by
    intro hThread
    obtain ⟨n, hn⟩ := Option.ne_none_iff_exists'.mp (hAdmitted hThread)
    exact ⟨n, h.allocated_of_head hn, hn⟩
  have hSelf := PoolPc.step_sound (h.sound t) h.tag hFirst hStep hAlive
  have hMoves := PoolPc.moves hStep hAlive
  refine ⟨hAlive, ?_⟩
  generalize hPc : s.threads t = pc at hMoves
  cases hMoves with
  | quiet hHead hAllocated hNext hGuarded hHand hTakes hPushes =>
      rw [PoolSystem.headUpdate_same hHead, hTakes, hPushes]
      exact ⟨freeList, h.quiet hHead hAllocated hNext hGuarded (hPc ▸ hHand) hSelf, rfl⟩
  | allocate hFresh =>
      rw [PoolSystem.headUpdate_same]
      · exact ⟨freeList, h.allocate hPc hFresh, rfl⟩
      · rfl
  | link =>
      rw [PoolSystem.headUpdate_same]
      · exact ⟨freeList, h.link hPc hSelf, rfl⟩
      · rfl
  | take hHead =>
      rw [PoolSystem.headUpdate_next] at hBudget
      · rw [PoolSystem.headUpdate_next]
        · obtain ⟨later, rfl, hShaped⟩ := h.take hPc hHead hBudget
          exact ⟨later, hShaped, by simp [PoolPc.takes, PoolPc.pushes]⟩
        · rfl
      · rfl
  | push =>
      rw [PoolSystem.headUpdate_next] at hBudget
      · rw [PoolSystem.headUpdate_next]
        · exact ⟨_, h.push hPc hBudget, by simp [PoolPc.takes, PoolPc.pushes]⟩
        · rfl
      · rfl

end Places

section Runs

variable [Fintype Thread] {s s' : PoolSystem Thread Node} {uid : UInt64} {updates : Nat}
  {freeList : List Node} {t : Thread} {n : Node}

/-- The invariant of a run that has updated `mHead` so often. -/
def PoolSystem.Holds (uid : UInt64) (updates : Nat) (s : PoolSystem Thread Node) : Prop :=
  ∃ freeList, s.Shaped uid updates freeList ∧
    Counted s.pool s.threads freeList.length s.rented.card

/-- An admitted thread finds a block. -/
theorem PoolSystem.Holds.notNull (h : s.Holds uid updates)
    (hAdmitted : (s.threads t).admitted = true) : s.pool.mHead.Node ≠ none := by
  obtain ⟨freeList, hShaped, hCounted⟩ := h
  intro hNull
  have hList := hShaped.list
  rw [ObjectPoolLockFree.FreeList, hNull] at hList
  have hPos := hCounted.cached_pos hAdmitted
  cases freeList with
  | nil => exact Nat.lt_irrefl 0 hPos
  | cons n later => cases hList.1

/-- What the invariant says about holders and counters. -/
theorem PoolSystem.Holds.oneHolder (h : s.Holds uid updates) : s.OneHolder where
  oneHolder := by
    obtain ⟨freeList, hShaped, _⟩ := h
    have hNodup := Multiset.coe_nodup.mpr hShaped.nodup
    rw [hShaped.places, add_assoc] at hNodup
    exact (Multiset.nodup_add.mp hNodup).2.1
  notNull t := h.notNull
  notCrashed t := by
    obtain ⟨freeList, hShaped, _⟩ := h
    intro hCrashed
    have hSound := hShaped.sound t
    rw [hCrashed] at hSound
    exact hSound
  kept := by
    obtain ⟨freeList, hShaped, _⟩ := h
    exact ⟨freeList, hShaped.list, hShaped.nodup, hShaped.places⟩
  counted := by
    obtain ⟨freeList, hShaped, hCounted⟩ := h
    intro hIdle freeList' hList
    obtain rfl := hShaped.list.unique hList
    obtain ⟨hCached, hUsed, hMax⟩ := hCounted.of_idle hIdle
    have hHands : s.hands = 0 := crewTotal_eq_zero fun t => by rw [hIdle t]; rfl
    have hPlaces := congrArg Multiset.card hShaped.places
    rw [hHands] at hPlaces
    simp only [Multiset.card_add, Multiset.coe_card, Multiset.card_zero] at hPlaces
    omega

/-- The new pool has nothing. -/
theorem PoolSystem.Holds.start (uid : UInt64) (policy : eAllocationPolicy)
    (nodes : Node → BlockNode Node) :
    (PoolSystem.start uid policy nodes : PoolSystem Thread Node).Holds uid 0 := by
  refine ⟨[], ⟨rfl, List.nodup_nil, ?_, ?_, ?_, fun _ => True.intro⟩, ?_⟩
  · have hHands : (PoolSystem.start uid policy nodes : PoolSystem Thread Node).hands = 0 :=
      crewTotal_eq_zero fun _ => rfl
    rw [hHands]
    rfl
  · intro n hn
    cases hn
  · exact (UInt64.add_zero uid).symm
  · have hZero : ∀ kind : PoolPc Node → Bool, kind .idle = false →
        crewCount kind (fun _ : Thread => PoolPc.idle) = 0 :=
      fun kind hKind => crewCount_eq_zero fun _ => hKind
    constructor <;> simp [PoolSystem.start, hZero PoolPc.admitted rfl, hZero PoolPc.refused rfl,
      hZero PoolPc.pushed rfl, hZero PoolPc.returning rfl, hZero PoolPc.allocated rfl]

variable [DecidableEq Thread]

/-- A call takes nothing but the object it is given. -/
theorem PoolSystem.Shaped.call {pc : PoolPc Node} {rented : Multiset Node}
    (h : s.Shaped uid updates freeList) (hIdle : s.threads t = .idle)
    (hSelf : pc.Sound s.pool uid updates) (hRented : s.rented = pc.hand + rented) :
    (({ s with rented := rented } : PoolSystem Thread Node).goto t pc).Shaped uid updates
      freeList := by
  refine ⟨h.list, h.nodup, ?_, h.guarded, h.tag, ?_⟩
  · have hPlaces := h.places
    rw [PoolSystem.hands, crewTotal_split _ _ t, hIdle, hRented] at hPlaces
    rw [PoolSystem.hands, PoolSystem.goto, crewTotal_update]
    simp only [PoolPc.hand] at hPlaces ⊢
    rw [hPlaces]
    abel
  · exact forall_update h.sound hSelf fun t' _ hSound => hSound

/-- A call is counted from its first step on. -/
theorem Counted.call {pool : ObjectPoolLockFree Node} {threads : Thread → PoolPc Node}
    {cached rented rented' : Nat} {pc : PoolPc Node} (h : Counted pool threads cached rented)
    (hIdle : threads t = .idle)
    (hEntry : pc = .rent .decrementCachedSize ∨ ∃ n, pc = .giveBack (.destroy n))
    (hRented : rented = rented' + pc.returning.toNat) :
    Counted pool (Function.update threads t pc) cached rented' := by
  have hAdmitted := crewCount_update PoolPc.admitted threads t pc
  have hRefused := crewCount_update PoolPc.refused threads t pc
  have hPushed := crewCount_update PoolPc.pushed threads t pc
  have hReturning := crewCount_update PoolPc.returning threads t pc
  have hAllocated := crewCount_update PoolPc.allocated threads t pc
  obtain ⟨hSize, hEnough, hUsed, hMax⟩ := h
  obtain rfl | ⟨n, rfl⟩ := hEntry
  all_goals
    simp only [hIdle, PoolPc.admitted, PoolPc.refused, PoolPc.pushed, PoolPc.returning,
      PoolPc.allocated, Bool.toNat_false, Bool.toNat_true]
      at hAdmitted hRefused hPushed hReturning hAllocated hRented
    constructor <;> omega

variable [DecidableEq Node]

/-- Each step keeps the invariant within the budget of head updates. -/
theorem PoolSystem.Holds.step {action : PoolAction Thread Node} (h : s.Holds uid updates)
    (hStep : s.step action = some s') (hBudget : updates + s.headUpdate s' < 2 ^ 64) :
    s'.Holds uid (updates + s.headUpdate s') := by
  cases action with
  | callRent t =>
      obtain ⟨freeList, hShaped, hCounted⟩ := h
      simp only [PoolSystem.step] at hStep
      split at hStep <;> cases hStep
      rename_i hIdle
      rw [PoolSystem.headUpdate_same]
      · exact ⟨freeList, hShaped.call hIdle True.intro (zero_add _).symm,
          hCounted.call hIdle (.inl rfl) rfl⟩
      · rfl
  | callReturn t ptrT =>
      obtain ⟨freeList, hShaped, hCounted⟩ := h
      simp only [PoolSystem.step] at hStep
      split at hStep
      · cases hStep
        rw [PoolSystem.headUpdate_same rfl]
        exact ⟨freeList, hShaped, hCounted⟩
      · rename_i n hIdle
        split at hStep <;> cases hStep
        rename_i hRented
        rw [PoolSystem.headUpdate_same]
        · refine ⟨freeList, hShaped.call hIdle True.intro ?_, hCounted.call hIdle (.inr ⟨n, rfl⟩) ?_⟩
          · exact (Multiset.cons_erase hRented).symm
          · exact (Multiset.card_erase_add_one hRented).symm
        · rfl
      · cases hStep
  | run t block =>
      have hNull := h.notNull (t := t)
      obtain ⟨freeList, hShaped, hCounted⟩ := h
      obtain ⟨a, hRun, rfl⟩ := Option.map_eq_some_iff.mp hStep
      obtain ⟨hAlive, freeList', hShaped', hLength⟩ := hShaped.run hNull hRun hBudget
      refine ⟨freeList', hShaped', ?_⟩
      have hCounted' := hCounted.run hRun hAlive hLength
      have hCard : s.rented.card + a.rented.toList.length = (s.advance t a).rented.card := by
        cases hRented : a.rented with
        | none => simp [PoolSystem.advance, hRented]
        | some n => simp [PoolSystem.advance, hRented]
      rw [hCard] at hCounted'
      exact hCounted'

/-- In every run of fewer than 2^64 updates of `mHead`, each object has one holder. -/
theorem PoolSystem.oneHolder_of_spends (policy : eAllocationPolicy) (nodes : Node → BlockNode Node)
    (h : Spends (Takes PoolSystem.step) PoolSystem.headUpdate (PoolSystem.start uid policy nodes)
      updates s)
    (hUpdates : updates < 2 ^ 64) : s.OneHolder :=
  (h.invariant (PoolSystem.Holds.start uid policy nodes)
    (fun hHolds hStep hBudget => hHolds.step hStep hBudget) hUpdates).oneHolder

/-- One thread takes a cached block while the other, which finds none left, allocates. -/
private def rentTwice : List (PoolAction Bool Nat) :=
  List.flatten [[.callRent false], List.replicate 6 (.run false (some 7)),
    [.callReturn false (some 7)], List.replicate 7 (.run false none),
    [.callRent false, .run false none, .callRent true], List.replicate 4 (.run true (some 8)),
    List.replicate 4 (.run false none), List.replicate 2 (.run true none),
    List.replicate 2 (.run false none)]

/-- Two threads rent a block each. -/
theorem PoolSystem.oneHolder_of_spends_rentTwice : ∃ s : PoolSystem Bool Nat,
    s.OneHolder ∧ s.rented = {7, 8} ∧ s.pool.mCachedSize = 0 ∧ s.pool.mMaxCapacity = 2 := by
  have hRun : (exec PoolSystem.step
      (PoolSystem.start 18446744073709551615 .None fun _ => ⟨none, 0, false, 0⟩) rentTwice).map
      (fun s => decide (s.rented = {7, 8} ∧ s.pool.mCachedSize = 0 ∧ s.pool.mMaxCapacity = 2)) =
        some true := by decide +kernel
  obtain ⟨s, hExec, hEnd⟩ := Option.map_eq_some_iff.mp hRun
  obtain ⟨updates, hUpdates, hSpends⟩ := spends_of_exec PoolSystem.headUpdate_le_one hExec
  have hLength : rentTwice.length = 30 := rfl
  exact ⟨s, PoolSystem.oneHolder_of_spends .None _ hSpends (by omega), of_decide_eq_true hEnd⟩

end Runs

end NfNetwork.ObjectPool
