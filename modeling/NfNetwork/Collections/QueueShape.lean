import NfNetwork.Machinery.Chain
import NfNetwork.Machinery.Crew
import NfNetwork.Collections.LockFreeQueue

/-! The nodes of a queue that threads are changing. The main list leads from `mHead`
to the last linked node. An enqueuer whose node is not linked yet may have nodes of
others behind it: the tail that they read has left the list and has become its node.
A stamp tells how late a node left the main list. It falls along such a list, so
that no thread links its node behind itself. -/
namespace NfNetwork.Collections

open Machinery

variable {Thread Node Value : Type}

section Kinds

/-- The node of an enqueuer that others may find without a successor. -/
def EnqueuePc.published : EnqueuePc Node → Option Node
  | .loadTailNode n | .loadTailUID n _ | .loadNext n _ | .moveTail n _ _ | .reloadTailNode n _
  | .link n _ _ => some n
  | _ => none

def QueuePc.published : QueuePc Node Value → Option Node
  | .enqueue _ pc => pc.published
  | _ => none

/-- A rented node that is in no list. -/
def QueuePc.hand : QueuePc Node Value → Multiset Node
  | .enqueue _ (.storeData n) | .enqueue _ (.storeNext n) | .tryDequeue (.giveBack n _) => {n}
  | _ => 0

/-- The node that a step puts into a list. -/
def QueuePc.publishes : QueuePc Node Value → Multiset Node
  | .enqueue _ (.storeNext n) => {n}
  | _ => 0

/-- The dummy node that a step takes from the main list. -/
def QueuePc.takes [DecidableEq Node] (queue : LockFreeQueue Node Value) :
    QueuePc Node Value → Multiset Node
  | .tryDequeue (.moveHead snapshotHead _ _) =>
      if queue.mHead = snapshotHead then snapshotHead.DummyNode.elim 0 fun n => {n} else 0
  | _ => 0

end Kinds

section Snapshots

/-- A snapshot of `mHead` or `mTail`: a node, and a tag that is not from the future. -/
def Indexer.Before (snapshot current : Indexer Node) : Prop :=
  (∃ n, snapshot.DummyNode = some n) ∧ snapshot.UID ≤ current.UID

/-- The successor was read while `current` was as in the snapshot. -/
def LockFreeQueue.Follows (queue : LockFreeQueue Node Value) (current snapshot : Indexer Node)
    (next : Node) : Prop :=
  current = snapshot → ∀ n, snapshot.DummyNode = some n → queue.next n = some next

/-- The tail is not at the dummy node. -/
def LockFreeQueue.Apart (queue : LockFreeQueue Node Value) (snapshotHead : Indexer Node) : Prop :=
  queue.mHead = snapshotHead → queue.mTail.DummyNode ≠ snapshotHead.DummyNode

/-- A tail that a thread is about to link behind. It is in a list if it has no
successor, and if it has left the main list, it has done so after `newNode` had. -/
structure Target (queue : LockFreeQueue Node Value) (main : List Node) (published : Multiset Node)
    (stamp : Node → Nat) (newNode tailNode : Node) : Prop where
  ends : queue.next tailNode = none → tailNode ∈ published
  later : tailNode ∈ main ∨ stamp newNode < stamp tailNode

/-- What an enqueuer relies on. -/
def EnqueuePc.Sound (queue : LockFreeQueue Node Value) (main : List Node)
    (published : Multiset Node) (stamp : Node → Nat) (inputData : Value) : EnqueuePc Node → Prop
  | .storeNext n => queue.data n = inputData
  | .loadTailUID _ node => ∃ m, node = some m
  | .loadNext _ snapshotTail => snapshotTail.Before queue.mTail
  | .moveTail _ snapshotTail next =>
      snapshotTail.Before queue.mTail ∧ queue.Follows queue.mTail snapshotTail next
  | .reloadTailNode _ snapshotTail => snapshotTail.Before queue.mTail
  | .link n snapshotTail tailNode => snapshotTail.Before queue.mTail ∧
      ∃ m, tailNode = some m ∧ Target queue main published stamp n m ∧
        (queue.mTail = snapshotTail → snapshotTail.DummyNode = some m)
  | .swingTail n snapshotTail =>
      snapshotTail.Before queue.mTail ∧ queue.Follows queue.mTail snapshotTail n
  | _ => True

/-- What a dequeuer relies on. -/
def DequeuePc.Sound (queue : LockFreeQueue Node Value) : DequeuePc Node Value → Prop
  | .loadHeadUID node => ∃ n, node = some n
  | .loadTailNode snapshotHead => snapshotHead.Before queue.mHead
  | .loadTailUID snapshotHead node => snapshotHead.Before queue.mHead ∧
      (∃ m, node = some m) ∧ (node ≠ snapshotHead.DummyNode → queue.Apart snapshotHead)
  | .loadHeadNext snapshotHead snapshotTail => snapshotHead.Before queue.mHead ∧
      snapshotTail.Before queue.mTail ∧
      (snapshotTail.DummyNode ≠ snapshotHead.DummyNode → queue.Apart snapshotHead)
  | .loadTailNext snapshotHead snapshotTail nextDummyNode => snapshotHead.Before queue.mHead ∧
      snapshotTail.Before queue.mTail ∧
      (snapshotTail.DummyNode ≠ snapshotHead.DummyNode → queue.Apart snapshotHead) ∧
      ∀ next, nextDummyNode = some next → queue.Follows queue.mHead snapshotHead next
  | .moveTail snapshotHead snapshotTail nextDummyNode snapshotTailNodeNext =>
      snapshotHead.Before queue.mHead ∧ snapshotTail.Before queue.mTail ∧
      queue.Follows queue.mHead snapshotHead nextDummyNode ∧
      queue.Follows queue.mTail snapshotTail snapshotTailNodeNext
  | .reloadTailNode snapshotHead nextDummyNode | .loadData snapshotHead nextDummyNode =>
      snapshotHead.Before queue.mHead ∧ queue.Follows queue.mHead snapshotHead nextDummyNode ∧
      queue.Apart snapshotHead
  | .reloadTailNext snapshotHead nextDummyNode tailNode => snapshotHead.Before queue.mHead ∧
      queue.Follows queue.mHead snapshotHead nextDummyNode ∧ queue.Apart snapshotHead ∧
      ∃ m, tailNode = some m
  | .moveHead snapshotHead nextDummyNode outputData => snapshotHead.Before queue.mHead ∧
      queue.Follows queue.mHead snapshotHead nextDummyNode ∧ queue.Apart snapshotHead ∧
      (queue.mHead = snapshotHead → queue.data nextDummyNode = outputData)
  | _ => True

def QueuePc.Sound (queue : LockFreeQueue Node Value) (main : List Node) (published : Multiset Node)
    (stamp : Node → Nat) : QueuePc Node Value → Prop
  | .idle => True
  | .enqueue inputData pc => pc.Sound queue main published stamp inputData
  | .tryDequeue pc => pc.Sound queue
  | .crashed => False

end Snapshots

section Evolution

/-- What the steps of other threads leave to rely on. -/
structure Evolves (queue queue' : LockFreeQueue Node Value) (main main' : List Node)
    (published published' : Multiset Node) (stamp stamp' : Node → Nat) : Prop where
  head : queue'.mHead = queue.mHead ∨ queue.mHead.UID < queue'.mHead.UID
  tail : queue'.mTail = queue.mTail ∨ queue.mTail.UID < queue'.mTail.UID
  next : ∀ n, queue.mHead.DummyNode = some n ∨ queue.mTail.DummyNode = some n →
    ∀ m, queue.next n = some m → queue'.next n = some m
  data : ∀ n m, queue.mHead.DummyNode = some n → queue.next n = some m →
    queue'.data m = queue.data m
  apart : queue'.mHead = queue.mHead → queue.mTail.DummyNode ≠ queue.mHead.DummyNode →
    queue'.mTail.DummyNode ≠ queue.mHead.DummyNode
  ends : ∀ n, queue'.next n = none → (queue.next n = none → n ∈ published) → n ∈ published'
  leave : ∀ n ∈ main, n ∈ main' ∨ ∀ m, stamp m < stamp' n
  stays : ∀ n, n ∉ main → stamp' n = stamp n

variable {queue queue' : LockFreeQueue Node Value} {main main' : List Node}
  {published published' : Multiset Node} {stamp stamp' : Node → Nat} {snapshot : Indexer Node}
  {n m : Node}

theorem Indexer.Before.trans {current current' : Indexer Node} (h : snapshot.Before current)
    (hLater : current' = current ∨ current.UID < current'.UID) : snapshot.Before current' := by
  cases hLater with
  | inl hSame => rwa [hSame]
  | inr hLt => exact ⟨h.1, UInt64.le_of_lt (UInt64.lt_of_le_of_lt h.2 hLt)⟩

/-- A snapshot from before cannot be of a later value. -/
theorem Indexer.Before.same {current current' : Indexer Node} (h : snapshot.Before current)
    (hLater : current' = current ∨ current.UID < current'.UID) (hNow : current' = snapshot) :
    current = snapshot := by
  cases hLater with
  | inl hSame => exact hSame.symm.trans hNow
  | inr hLt =>
      rw [hNow] at hLt
      exact absurd (UInt64.lt_of_le_of_lt h.2 hLt) (UInt64.lt_irrefl _)

section Frames

variable (h : Evolves queue queue' main main' published published' stamp stamp')

include h

theorem Evolves.followsHead (hBefore : snapshot.Before queue.mHead)
    (hFollows : queue.Follows queue.mHead snapshot n) : queue'.Follows queue'.mHead snapshot n := by
  intro hNow m hm
  have hThen := hBefore.same h.head hNow
  exact h.next m (.inl (hThen ▸ hm)) n (hFollows hThen m hm)

theorem Evolves.followsTail (hBefore : snapshot.Before queue.mTail)
    (hFollows : queue.Follows queue.mTail snapshot n) : queue'.Follows queue'.mTail snapshot n := by
  intro hNow m hm
  have hThen := hBefore.same h.tail hNow
  exact h.next m (.inr (hThen ▸ hm)) n (hFollows hThen m hm)

theorem Evolves.keepsApart (hBefore : snapshot.Before queue.mHead) (hApart : queue.Apart snapshot) :
    queue'.Apart snapshot := by
  intro hNow
  have hThen := hBefore.same h.head hNow
  rw [← hThen]
  exact h.apart (hNow.trans hThen.symm) (hThen ▸ hApart hThen)

theorem Evolves.target (hStays : stamp' n = stamp n)
    (hTarget : Target queue main published stamp n m) :
    Target queue' main' published' stamp' n m := by
  refine ⟨fun hEnd => h.ends m hEnd hTarget.ends, ?_⟩
  rw [hStays]
  by_cases hMain : m ∈ main
  · exact (h.leave m hMain).imp_right fun hLater => hLater n
  · rw [h.stays m hMain]
    exact .inr (hTarget.later.resolve_left hMain)

theorem EnqueuePc.Sound.frame {inputData : Value} {pc : EnqueuePc Node}
    (hSound : pc.Sound queue main published stamp inputData)
    (hStays : ∀ n, pc.published = some n → stamp' n = stamp n)
    (hData : ∀ n, pc = .storeNext n → queue'.data n = queue.data n) :
    pc.Sound queue' main' published' stamp' inputData := by
  cases pc with
  | storeNext n => exact (hData n rfl).trans hSound
  | loadTailUID n node => exact hSound
  | loadNext n snapshotTail => exact Indexer.Before.trans hSound h.tail
  | moveTail n snapshotTail next => exact ⟨hSound.1.trans h.tail, h.followsTail hSound.1 hSound.2⟩
  | reloadTailNode n snapshotTail => exact Indexer.Before.trans hSound h.tail
  | link n snapshotTail tailNode =>
      obtain ⟨hBefore, m, hNode, hTarget, hRead⟩ := hSound
      refine ⟨hBefore.trans h.tail, m, hNode, h.target (hStays n rfl) hTarget, ?_⟩
      intro hNow
      exact hRead (hBefore.same h.tail hNow)
  | swingTail n snapshotTail => exact ⟨hSound.1.trans h.tail, h.followsTail hSound.1 hSound.2⟩
  | rent | storeData | loadTailNode | incrementUsedSize => trivial

theorem DequeuePc.Sound.frame {pc : DequeuePc Node Value} (hSound : pc.Sound queue) :
    pc.Sound queue' := by
  cases pc with
  | loadHeadUID node => exact hSound
  | loadTailNode snapshotHead => exact Indexer.Before.trans hSound h.head
  | loadTailUID snapshotHead node =>
      obtain ⟨hHead, hNode, hApart⟩ := hSound
      exact ⟨hHead.trans h.head, hNode, fun hOther => h.keepsApart hHead (hApart hOther)⟩
  | loadHeadNext snapshotHead snapshotTail =>
      obtain ⟨hHead, hTail, hApart⟩ := hSound
      exact ⟨hHead.trans h.head, hTail.trans h.tail, fun hOther => h.keepsApart hHead (hApart hOther)⟩
  | loadTailNext snapshotHead snapshotTail nextDummyNode =>
      obtain ⟨hHead, hTail, hApart, hFollows⟩ := hSound
      exact ⟨hHead.trans h.head, hTail.trans h.tail, fun hOther => h.keepsApart hHead (hApart hOther),
        fun next hNext => h.followsHead hHead (hFollows next hNext)⟩
  | moveTail snapshotHead snapshotTail nextDummyNode snapshotTailNodeNext =>
      obtain ⟨hHead, hTail, hFollows, hTailNext⟩ := hSound
      exact ⟨hHead.trans h.head, hTail.trans h.tail, h.followsHead hHead hFollows,
        h.followsTail hTail hTailNext⟩
  | reloadTailNode snapshotHead nextDummyNode | loadData snapshotHead nextDummyNode =>
      obtain ⟨hHead, hFollows, hApart⟩ := hSound
      exact ⟨hHead.trans h.head, h.followsHead hHead hFollows, h.keepsApart hHead hApart⟩
  | reloadTailNext snapshotHead nextDummyNode tailNode =>
      obtain ⟨hHead, hFollows, hApart, hNode⟩ := hSound
      exact ⟨hHead.trans h.head, h.followsHead hHead hFollows, h.keepsApart hHead hApart, hNode⟩
  | moveHead snapshotHead nextDummyNode outputData =>
      obtain ⟨hHead, hFollows, hApart, hRead⟩ := hSound
      refine ⟨hHead.trans h.head, h.followsHead hHead hFollows, h.keepsApart hHead hApart, ?_⟩
      intro hNow
      have hThen := hHead.same h.head hNow
      obtain ⟨n, hn⟩ := hHead.1
      rw [h.data n nextDummyNode (hThen ▸ hn) (hFollows hThen n hn)]
      exact hRead hThen
  | decrementUsedSize | incrementUsedSize | loadHeadNode | giveBack | leave => trivial

theorem QueuePc.Sound.frame {pc : QueuePc Node Value}
    (hSound : pc.Sound queue main published stamp)
    (hStays : ∀ n, pc.published = some n → stamp' n = stamp n)
    (hData : ∀ n, n ∈ pc.hand → queue'.data n = queue.data n) :
    pc.Sound queue' main' published' stamp' := by
  cases pc with
  | idle => trivial
  | enqueue inputData pc =>
      apply EnqueuePc.Sound.frame h hSound hStays
      rintro n rfl
      exact hData n (Multiset.mem_singleton_self n)
  | tryDequeue pc => exact DequeuePc.Sound.frame h hSound
  | crashed => exact hSound

end Frames

end Evolution

section OwnSteps

variable [DecidableEq Node] {queue : LockFreeQueue Node Value} {main : List Node}
  {published : Multiset Node} {stamp : Node → Nat} {fresh : Option Node}
  {a : QueueAdvance Node Value}

/-- What a thread relies on after its own step, in `Enqueue`. -/
theorem EnqueuePc.step_sound {inputData : Value} {pc : EnqueuePc Node}
    (h : pc.Sound queue main published stamp inputData)
    (hTail : ∃ m ∈ main, queue.mTail.DummyNode = some m) (hPublished : ∀ m ∈ main, m ∈ published)
    (hStep : pc.step queue inputData fresh = some a) : a.pc.Sound a.queue main published stamp := by
  cases pc with
  | rent =>
      simp only [EnqueuePc.step] at hStep
      repeat' split at hStep
      all_goals cases hStep
      all_goals trivial
  | storeData n =>
      cases hStep
      exact (congrFun (queue.storeData_data n inputData) n).trans (Function.update_self ..)
  | loadTailNode n =>
      cases hStep
      obtain ⟨m, _, hm⟩ := hTail
      exact ⟨m, hm⟩
  | loadTailUID n node =>
      cases hStep
      exact ⟨h, UInt64.le_refl _⟩
  | loadNext n snapshotTail =>
      have hBefore : snapshotTail.Before queue.mTail := h
      obtain ⟨m, hm⟩ := hBefore.1
      simp only [EnqueuePc.step, deref, hm] at hStep
      split at hStep <;> cases hStep
      · rename_i next hNext
        refine ⟨hBefore, fun _ k hk => ?_⟩
        cases hm.symm.trans hk
        exact hNext
      · exact hBefore
  | reloadTailNode n snapshotTail =>
      cases hStep
      obtain ⟨m, hMain, hm⟩ := hTail
      exact ⟨h, m, hm, ⟨fun _ => hPublished m hMain, .inl hMain⟩, fun hNow => hNow ▸ hm⟩
  | link n snapshotTail tailNode =>
      obtain ⟨hBefore, m, rfl, _, hRead⟩ := h
      simp only [EnqueuePc.step, deref] at hStep
      split at hStep <;> cases hStep
      · refine ⟨hBefore, fun hNow k hk => ?_⟩
        cases (hRead hNow).symm.trans hk
        exact (congrFun (queue.storeNext_next m (some n)) m).trans (Function.update_self ..)
      · trivial
  | storeNext | moveTail | swingTail | incrementUsedSize =>
      cases hStep
      trivial

/-- What a thread relies on after its own step, in `TryDequeue`. -/
theorem DequeuePc.step_sound {pc : DequeuePc Node Value} (h : pc.Sound queue)
    (hHead : ∃ n, queue.mHead.DummyNode = some n) (hTail : ∃ m, queue.mTail.DummyNode = some m)
    (hNext : ∀ n m, queue.mTail.DummyNode = some n → queue.next n = some m →
      queue.mHead.DummyNode ≠ some m) :
    (pc.step queue).pc.Sound (pc.step queue).queue main published stamp := by
  cases pc with
  | decrementUsedSize =>
      simp only [DequeuePc.step]
      split <;> trivial
  | loadHeadNode => exact hHead
  | loadHeadUID node => exact ⟨h, UInt64.le_refl _⟩
  | loadTailNode snapshotHead =>
      refine ⟨h, hTail, fun hOther hNow => ?_⟩
      exact hOther
  | loadTailUID snapshotHead node =>
      obtain ⟨hBefore, hNode, hApart⟩ := h
      exact ⟨hBefore, ⟨hNode, UInt64.le_refl _⟩, hApart⟩
  | loadHeadNext snapshotHead snapshotTail =>
      obtain ⟨hBefore, hTailBefore, hApart⟩ := h
      obtain ⟨n, hn⟩ := hBefore.1
      simp only [DequeuePc.step, deref, hn]
      refine ⟨hBefore, hTailBefore, hApart, fun next hRead _ m hm => ?_⟩
      cases hn.symm.trans hm
      exact hRead
  | loadTailNext snapshotHead snapshotTail nextDummyNode =>
      obtain ⟨hBefore, hTailBefore, hApart, hFollows⟩ := h
      obtain ⟨n, hn⟩ := hTailBefore.1
      simp only [DequeuePc.step, deref, hn]
      cases nextDummyNode with
      | none => trivial
      | some nextDummyNode =>
          dsimp only
          split
          · rename_i next hRead
            refine ⟨hBefore, hTailBefore, hFollows nextDummyNode rfl, fun _ m hm => ?_⟩
            cases hn.symm.trans hm
            exact hRead
          · rename_i hRead
            refine ⟨hBefore, hFollows nextDummyNode rfl, fun hNow => ?_⟩
            refine hApart (fun hSame => ?_) hNow
            -- the dummy node has a successor, the tail that was read has none
            have hSucc := hFollows nextDummyNode rfl hNow n (hSame ▸ hn)
            rw [hRead] at hSucc
            cases hSucc
  | moveTail snapshotHead snapshotTail nextDummyNode snapshotTailNodeNext =>
      obtain ⟨hBefore, ⟨⟨n, hn⟩, _⟩, hFollows, hTailNext⟩ := h
      by_cases hNow : queue.mTail = snapshotTail
      · simp only [DequeuePc.step, LockFreeQueue.moveTail, if_pos hNow]
        refine ⟨hBefore, hFollows, fun hHeadNow => ?_⟩
        have hOther := hNext n snapshotTailNodeNext (hNow ▸ hn) (hTailNext hNow n hn)
        intro hSame
        exact hOther (hHeadNow ▸ hSame.symm)
      · simp only [DequeuePc.step, if_neg hNow]
        trivial
  | reloadTailNode snapshotHead nextDummyNode =>
      obtain ⟨hBefore, hFollows, hApart⟩ := h
      exact ⟨hBefore, hFollows, hApart, hTail⟩
  | reloadTailNext snapshotHead nextDummyNode tailNode =>
      obtain ⟨hBefore, hFollows, hApart, m, rfl⟩ := h
      simp only [DequeuePc.step, deref]
      split
      · exact ⟨hBefore, hFollows, hApart⟩
      · trivial
  | loadData snapshotHead nextDummyNode =>
      obtain ⟨hBefore, hFollows, hApart⟩ := h
      exact ⟨hBefore, hFollows, hApart, fun _ => rfl⟩
  | moveHead snapshotHead nextDummyNode outputData =>
      obtain ⟨⟨⟨n, hn⟩, _⟩, _⟩ := h
      simp only [DequeuePc.step, deref, hn]
      split <;> trivial
  | incrementUsedSize | giveBack | leave => trivial

/-- A successful exchange of `mTail`. -/
def LockFreeQueue.withTail (queue : LockFreeQueue Node Value) (n : Node) : LockFreeQueue Node Value :=
  { queue with mTail := ⟨queue.mTail.UID + 1, some n⟩ }

/-- What a step does to the lists. -/
inductive QueuePc.Moves (queue : LockFreeQueue Node Value) :
    QueuePc Node Value → QueueAdvance Node Value → Prop where
  | quiet {pc : QueuePc Node Value} {a : QueueAdvance Node Value} (used : Int)
      (hQueue : a.queue = { queue with mUsedSize := used }) (hPublished : a.pc.published = pc.published)
      (hHand : a.pc.hand = pc.hand) (hPublishes : pc.publishes = 0) (hTakes : pc.takes queue = 0) :
      Moves queue pc a
  | moveTail {pc : QueuePc Node Value} {a : QueueAdvance Node Value} (next : Node)
      (hQueue : a.queue = queue.withTail next)
      (hNext : ∀ n, queue.mTail.DummyNode = some n → queue.next n = some next)
      (hPublished : a.pc.published = pc.published) (hHand : a.pc.hand = pc.hand)
      (hPublishes : pc.publishes = 0) (hTakes : pc.takes queue = 0) : Moves queue pc a
  | rent {v : Value} {n : Node} (hFresh : n ∉ queue.rented) : Moves queue (.enqueue v .rent)
      ⟨{ queue with rented := n ::ₘ queue.rented }, .enqueue v (.storeData n), none⟩
  | storeData {v : Value} {n : Node} : Moves queue (.enqueue v (.storeData n))
      ⟨queue.storeData n v, .enqueue v (.storeNext n), none⟩
  | storeNext {v : Value} {n : Node} : Moves queue (.enqueue v (.storeNext n))
      ⟨queue.storeNext n none, .enqueue v (.loadTailNode n), none⟩
  | link {v : Value} {n m : Node} {snapshotTail : Indexer Node} (hEnd : queue.next m = none) :
      Moves queue (.enqueue v (.link n snapshotTail (some m)))
        ⟨queue.storeNext m (some n), .enqueue v (.swingTail n snapshotTail), none⟩
  | take {v : Value} {n next : Node} (hHead : queue.mHead.DummyNode = some n) :
      Moves queue (.tryDequeue (.moveHead queue.mHead next v))
        ⟨{ queue with mHead := ⟨queue.mHead.UID + 1, some next⟩ }, .tryDequeue (.giveBack n v), none⟩
  | giveBack {v : Value} {n : Node} : Moves queue (.tryDequeue (.giveBack n v))
      ⟨{ queue with rented := queue.rented.erase n }, .tryDequeue (.leave v), none⟩

/-- An exchange of `mTail` that may fail. -/
theorem QueuePc.moves_of_moveTail {pc : QueuePc Node Value} {snapshotTail : Indexer Node} {n : Node}
    (hFollows : queue.Follows queue.mTail snapshotTail n)
    (hQueue : a.queue = queue.moveTail n snapshotTail) (hPublished : a.pc.published = pc.published)
    (hHand : a.pc.hand = pc.hand) (hPublishes : pc.publishes = 0) (hTakes : pc.takes queue = 0) :
    pc.Moves queue a := by
  rw [LockFreeQueue.moveTail] at hQueue
  split at hQueue
  · rename_i hNow
    refine .moveTail n ?_ (fun m hm => hFollows hNow m (hNow ▸ hm)) hPublished hHand hPublishes
      hTakes
    rw [hQueue, ← hNow, LockFreeQueue.withTail]
  · exact .quiet queue.mUsedSize hQueue hPublished hHand hPublishes hTakes

theorem EnqueuePc.moves {inputData : Value} {pc : EnqueuePc Node}
    (h : pc.Sound queue main published stamp inputData)
    (hStep : pc.step queue inputData fresh = some a) :
    (QueuePc.enqueue inputData pc).Moves queue a := by
  cases pc with
  | rent =>
      cases fresh with
      | none =>
          cases hStep
          exact .quiet queue.mUsedSize rfl rfl rfl rfl rfl
      | some n =>
          simp only [EnqueuePc.step] at hStep
          split at hStep <;> cases hStep
          rename_i hFresh
          exact .rent hFresh
  | storeData n =>
      cases hStep
      exact .storeData
  | storeNext n =>
      cases hStep
      exact .storeNext
  | loadTailNode | loadTailUID | reloadTailNode | incrementUsedSize =>
      cases hStep
      exact .quiet _ rfl rfl rfl rfl rfl
  | loadNext n snapshotTail =>
      have hBefore : snapshotTail.Before queue.mTail := h
      obtain ⟨m, hm⟩ := hBefore.1
      simp only [EnqueuePc.step, deref, hm] at hStep
      split at hStep <;> cases hStep <;> exact .quiet queue.mUsedSize rfl rfl rfl rfl rfl
  | moveTail n snapshotTail next =>
      cases hStep
      exact QueuePc.moves_of_moveTail h.2 rfl rfl rfl rfl rfl
  | link n snapshotTail tailNode =>
      obtain ⟨_, m, rfl, _⟩ := h
      simp only [EnqueuePc.step, deref] at hStep
      split at hStep <;> cases hStep
      · rename_i hEnd
        exact .link hEnd
      · exact .quiet queue.mUsedSize rfl rfl rfl rfl rfl
  | swingTail n snapshotTail =>
      cases hStep
      exact QueuePc.moves_of_moveTail h.2 rfl rfl rfl rfl rfl

theorem DequeuePc.moves {pc : DequeuePc Node Value} (h : pc.Sound queue) :
    (QueuePc.tryDequeue pc).Moves queue (pc.step queue) := by
  cases pc with
  | decrementUsedSize =>
      refine .quiet (queue.mUsedSize - 1) rfl ?_ ?_ rfl rfl <;> simp only [DequeuePc.step] <;> split <;> rfl
  | incrementUsedSize | loadHeadNode | loadHeadUID | loadTailNode | loadTailUID | reloadTailNode
  | loadData | leave => exact .quiet _ rfl rfl rfl rfl rfl
  | loadHeadNext snapshotHead snapshotTail =>
      obtain ⟨⟨⟨n, hn⟩, _⟩, _⟩ := h
      simp only [DequeuePc.step, deref, hn]
      exact .quiet queue.mUsedSize rfl rfl rfl rfl rfl
  | loadTailNext snapshotHead snapshotTail nextDummyNode =>
      obtain ⟨_, ⟨⟨n, hn⟩, _⟩, _⟩ := h
      simp only [DequeuePc.step, deref, hn]
      repeat' split
      all_goals exact .quiet queue.mUsedSize rfl rfl rfl rfl rfl
  | moveTail snapshotHead snapshotTail nextDummyNode snapshotTailNodeNext =>
      refine QueuePc.moves_of_moveTail h.2.2.2 rfl ?_ ?_ rfl rfl <;> simp only [DequeuePc.step] <;>
        split <;> rfl
  | reloadTailNext snapshotHead nextDummyNode tailNode =>
      obtain ⟨_, _, _, n, rfl⟩ := h
      simp only [DequeuePc.step, deref]
      split <;> exact .quiet queue.mUsedSize rfl rfl rfl rfl rfl
  | moveHead snapshotHead nextDummyNode outputData =>
      obtain ⟨⟨⟨n, hn⟩, _⟩, _⟩ := h
      simp only [DequeuePc.step, deref, hn]
      split
      · rename_i hNow
        subst hNow
        exact .take hn
      · rename_i hNot
        exact .quiet queue.mUsedSize rfl rfl rfl rfl (if_neg hNot)
  | giveBack n outputData => exact .giveBack

end OwnSteps

end NfNetwork.Collections
