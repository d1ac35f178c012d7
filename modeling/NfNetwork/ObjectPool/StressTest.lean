import NfNetwork.ObjectPool.OneHolder

/-! `AllocFreeThread3`, the stress test of the lock-free pool: its threads rent objects, change what is
in them and change it back, and assert all along that nobody else does. -/
namespace NfNetwork.ObjectPool

open Machinery

def DATA : Int := 0x0000000055555555

structure BData where
  Data : Int
  Count : Int
deriving DecidableEq

/-- What the constructor leaves. -/
def BData.new : BData := ⟨DATA, 0⟩

/-- The loops of a round, in order. `rent` has the assertions on a new object too. -/
inductive TestLoop where
  | rent
  | increment
  | assertOne
  | decrement
  | assertZero
  | giveBack
deriving DecidableEq

namespace TestLoop

def next : TestLoop → TestLoop
  | .rent => .increment
  | .increment => .assertOne
  | .assertOne => .decrement
  | .decrement => .assertZero
  | .assertZero => .giveBack
  | .giveBack => .rent

/-- The two accesses that a loop makes to each object, the second one if `second`. An assertion that
fails leaves nothing. -/
def access (loop : TestLoop) (second : Bool) (object : BData) : Option BData :=
  match loop, second with
  | .rent, false | .assertZero, false => if object.Count = 0 then some object else none
  | .rent, true | .assertZero, true => if object.Data = DATA then some object else none
  | .increment, false => some { object with Data := object.Data + 1 }
  | .increment, true => some { object with Count := object.Count + 1 }
  | .assertOne, false => if object.Count = 1 then some object else none
  | .assertOne, true => if object.Data = 0x0000000055555556 then some object else none
  | .decrement, false => some { object with Data := object.Data - 1 }
  | .decrement, true => some { object with Count := object.Count - 1 }
  | .giveBack, _ => some object

/-- What an object holds that the loop has not come to. -/
def before : TestLoop → BData
  | .rent | .increment | .assertZero | .giveBack => .new
  | .assertOne | .decrement => ⟨DATA + 1, 1⟩

/-- What the object holds that the loop is at. -/
def current (loop : TestLoop) (second : Bool) : BData := match loop, second with
  | .increment, true => ⟨DATA + 1, 0⟩
  | .decrement, true => ⟨DATA, 1⟩
  | loop, _ => loop.before

theorem access_current (loop : TestLoop) (second : Bool) :
    loop.access second (loop.current second) =
      some (if second then loop.next.before else loop.current true) := by
  cases loop <;> cases second <;> rfl

theorem current_false (loop : TestLoop) : loop.current false = loop.before := by
  cases loop <;> rfl

end TestLoop

/-- A thread of the test. Its current loop is through with the objects in `passed` and has those in
`left` to go, and is between the two accesses to the first of them if `second`. -/
structure TestThread (Node : Type) where
  loop : TestLoop
  passed : List Node
  left : List Node
  second : Bool
  failed : Bool
  ended : Bool

/-- The pool, what is in the objects, and the threads. -/
structure StressTest (Thread Node : Type) where
  system : PoolSystem Thread Node
  objects : Node → BData
  threads : Thread → TestThread Node

inductive TestAction (Thread Node : Type) where
  | pool (t : Thread) (block : Option Node)
  | thread (t : Thread)
  /-- `WaitOne` finds the event set. -/
  | quit (t : Thread)

variable {Thread Node : Type} [DecidableEq Thread] [DecidableEq Node]

/-- The thread is past one access. -/
def TestThread.pass (thread : TestThread Node) (n : Node) (later : List Node) : TestThread Node :=
  if thread.second then { thread with second := false, passed := thread.passed ++ [n], left := later }
  else { thread with second := true }

/-- The thread goes on to the next loop over its objects. -/
def TestThread.turn (thread : TestThread Node) : TestThread Node :=
  { thread with loop := thread.loop.next, passed := [], left := thread.passed }

namespace StressTest

def start (uid : UInt64) (nodes : Node → BlockNode Node) (objects : Node → BData) : StressTest Thread Node where
  system := .start uid .None nodes
  objects := objects
  threads _ := ⟨.rent, [], [], false, false, false⟩

def goto (s : StressTest Thread Node) (t : Thread) (thread : TestThread Node) : StressTest Thread Node :=
  { s with threads := Function.update s.threads t thread }

/-- With the policy `None` the object of a block is constructed where the block is allocated. -/
def construct (objects : Node → BData) (pc : PoolPc Node) (block : Option Node) : Node → BData :=
  match pc, block with
  | .rent .allocateFreeBlockNodes, some n => Function.update objects n .new
  | _, _ => objects

/-- An object that `Rent` returns is the thread's next one. -/
def receive (threads : Thread → TestThread Node) (t : Thread) : Option Node → Thread → TestThread Node
  | none => threads
  | some n => Function.update threads t { threads t with left := [n] }

/-- One step of `Rent` or `Return`. -/
def poolStep (s : StressTest Thread Node) (t : Thread) (block : Option Node) :
    Option (StressTest Thread Node) :=
  match s.system.threads t, block with
  -- A `malloc` that fails has no step: `std::bad_alloc` ends the program.
  | .rent .allocateFreeBlockNodes, none => none
  | pc, block => (pc.step s.system.pool block).map fun a =>
      ⟨s.system.advance t a, construct s.objects pc block, receive s.threads t a.rented⟩

/-- One step of the thread itself, for arrays of `MAX` objects. -/
def threadStep (MAX : Nat) (s : StressTest Thread Node) (t : Thread) : Option (StressTest Thread Node) :=
  let thread := s.threads t
  match thread.loop, thread.left with
  | .rent, [] =>
    if thread.passed.length < MAX then (s.system.step (.callRent t)).map ({ s with system := · })
    else some (s.goto t thread.turn)
  | .giveBack, n :: later =>
    (s.system.step (.callReturn t (some n))).map ({ s.goto t { thread with left := later } with system := · })
  | _, [] => some (s.goto t thread.turn)
  | loop, n :: later => some <| match loop.access thread.second (s.objects n) with
    | none => s.goto t { thread with failed := true }
    | some object => { s.goto t (thread.pass n later) with objects := Function.update s.objects n object }

def step (MAX : Nat) (s : StressTest Thread Node) : TestAction Thread Node → Option (StressTest Thread Node)
  | .pool t block => s.poolStep t block
  | .thread t => match s.system.threads t with
    | .idle => if (s.threads t).failed || (s.threads t).ended then none else s.threadStep MAX t
    | _ => none
  | .quit t => match s.system.threads t, s.threads t with
    | .idle, ⟨.rent, [], [], second, failed, _⟩ => some (s.goto t ⟨.rent, [], [], second, failed, true⟩)
    | _, _ => none

/-- 1 if a step replaces the pool's `mHead`. -/
def headUpdate (s s' : StressTest Thread Node) : Nat := s.system.headUpdate s'.system

end StressTest

/-- The objects in a thread's array. -/
def TestThread.held (thread : TestThread Node) : Multiset Node := ↑(thread.passed ++ thread.left)

/-- What a thread knows of its objects and of its call. -/
structure TestThread.Sound (objects : Node → BData) (pc : PoolPc Node) (thread : TestThread Node) : Prop where
  passed : ∀ n ∈ thread.passed, objects n = thread.loop.next.before
  current : ∀ n ∈ thread.left.head?, objects n = thread.loop.current thread.second
  later : ∀ n ∈ thread.left.tail, objects n = thread.loop.before
  second : thread.left = [] → thread.second = false
  giveBack : thread.loop = .giveBack → thread.passed = [] ∧ thread.second = false
  renting : (∃ rent, pc = .rent rent) → thread.loop = .rent ∧ thread.left = []
  ended : thread.ended = true → pc = .idle ∧ thread.passed = [] ∧ thread.left = []
  failed : thread.failed = false

omit [DecidableEq Node] in
/-- A thread is not disturbed by what happens to the objects of others. -/
theorem TestThread.Sound.frame {objects objects' : Node → BData} {pc : PoolPc Node} {thread : TestThread Node}
    (h : thread.Sound objects pc) (hSame : ∀ n ∈ thread.held, objects' n = objects n) :
    thread.Sound objects' pc := by
  have hPassed : ∀ n ∈ thread.passed, n ∈ thread.held := fun n hMem => List.mem_append_left _ hMem
  have hLeft : ∀ n ∈ thread.left, n ∈ thread.held := fun n hMem => List.mem_append_right _ hMem
  refine { h with passed := fun n hMem => ?_, current := fun n hMem => ?_, later := fun n hMem => ?_ }
  · rw [hSame n (hPassed n hMem), h.passed n hMem]
  · rw [hSame n (hLeft n (List.mem_of_mem_head? hMem)), h.current n hMem]
  · rw [hSame n (hLeft n (List.mem_of_mem_tail hMem)), h.later n hMem]

omit [DecidableEq Node] in
/-- The call goes on. -/
theorem TestThread.Sound.goOn {objects : Node → BData} {pc pc' : PoolPc Node} {thread : TestThread Node}
    (h : thread.Sound objects pc) (hBusy : pc ≠ .idle)
    (hRent : (∃ rent, pc' = .rent rent) → ∃ rent, pc = .rent rent) : thread.Sound objects pc' :=
  { h with
    renting := fun hRenting => h.renting (hRent hRenting)
    ended := fun hEnded => absurd (h.ended hEnded).1 hBusy }

omit [DecidableEq Node] in
/-- `Rent` has returned the object. -/
theorem TestThread.Sound.receive {objects : Node → BData} {rent : RentPc Node} {thread : TestThread Node} {n : Node}
    (h : thread.Sound objects (.rent rent)) (hNew : objects n = .new) :
    ({ thread with left := [n] } : TestThread Node).Sound objects .idle := by
  obtain ⟨hLoop, hLeft⟩ := h.renting ⟨rent, rfl⟩
  refine ⟨h.passed, fun m hMem => ?_, fun m hMem => ?_, fun hNil => ?_, h.giveBack, fun hRenting => ?_,
    fun hEnded => ?_, h.failed⟩
  · obtain rfl := Option.mem_some_iff.mp hMem
    simp only [hLoop, h.second hLeft]
    exact hNew
  · cases hMem
  · cases hNil
  · obtain ⟨rent', hRent⟩ := hRenting
    cases hRent
  · cases (h.ended hEnded).1

omit [DecidableEq Node] in
/-- The thread calls `Rent`. -/
theorem TestThread.Sound.callRent {objects : Node → BData} {pc : PoolPc Node} {thread : TestThread Node}
    (h : thread.Sound objects pc) (hLoop : thread.loop = .rent) (hLeft : thread.left = [])
    (hEnded : thread.ended = false) : thread.Sound objects (.rent .decrementCachedSize) :=
  { h with
    renting := fun _ => ⟨hLoop, hLeft⟩
    ended := fun hEnd => absurd (hEnded.symm.trans hEnd) Bool.false_ne_true }

omit [DecidableEq Node] in
/-- The thread calls `Return`. -/
theorem TestThread.Sound.callReturn {objects : Node → BData} {pc : PoolPc Node} {thread : TestThread Node}
    {n : Node} {later : List Node} (h : thread.Sound objects pc) (hLoop : thread.loop = .giveBack)
    (hLeft : thread.left = n :: later) :
    objects n = .new ∧ ({ thread with left := later } : TestThread Node).Sound objects (.giveBack (.destroy n)) := by
  obtain ⟨hPassed, hSecond⟩ := h.giveBack hLoop
  have hLater : ∀ m ∈ later, objects m = thread.loop.before := fun m hMem => h.later m (by rwa [hLeft])
  refine ⟨?_, h.passed, fun m hMem => ?_, fun m hMem => hLater m (List.mem_of_mem_tail hMem), fun _ => hSecond,
    h.giveBack, fun hRenting => ?_, fun hEnded => ?_, h.failed⟩
  · rw [h.current n (by rw [hLeft]; rfl), hLoop]
    rfl
  · rw [hLater m (List.mem_of_mem_head? hMem), hSecond, TestLoop.current_false]
  · obtain ⟨rent, hRent⟩ := hRenting
    cases hRent
  · have hNil := (h.ended hEnded).2.2
    rw [hLeft] at hNil
    cases hNil

omit [DecidableEq Node] in
/-- The thread goes on to the next loop. -/
theorem TestThread.Sound.turn {objects : Node → BData} {thread : TestThread Node} (h : thread.Sound objects .idle)
    (hLeft : thread.left = []) (hEnded : thread.ended = false) : thread.turn.Sound objects .idle := by
  have hSecond := h.second hLeft
  refine ⟨fun m hMem => ?_, fun m hMem => ?_, fun m hMem => h.passed m (List.mem_of_mem_tail hMem), fun _ => hSecond,
    fun _ => ⟨rfl, hSecond⟩, fun hRenting => ?_, fun hEnd => ?_, h.failed⟩
  · cases hMem
  · rw [h.passed m (List.mem_of_mem_head? hMem), TestThread.turn, hSecond, TestLoop.current_false]
  · obtain ⟨rent, hRent⟩ := hRenting
    cases hRent
  · cases hEnded.symm.trans hEnd

/-- The access that is next meets no failing assertion. -/
theorem TestThread.Sound.pass {objects : Node → BData} {thread : TestThread Node} {n : Node} {later : List Node}
    (h : thread.Sound objects .idle) (hLeft : thread.left = n :: later) (hLoop : thread.loop ≠ .giveBack)
    (hNodup : (thread.passed ++ thread.left).Nodup) :
    ∃ object, thread.loop.access thread.second (objects n) = some object ∧
      (thread.pass n later).Sound (Function.update objects n object) .idle := by
  have hNow : objects n = thread.loop.current thread.second := h.current n (by rw [hLeft]; rfl)
  have hLater : ∀ m ∈ later, objects m = thread.loop.before := fun m hMem => h.later m (by rwa [hLeft])
  rw [hLeft] at hNodup
  obtain ⟨_, hTail, hApart⟩ := List.nodup_append.mp hNodup
  have hPassedNe : ∀ m ∈ thread.passed, m ≠ n := fun m hMem => hApart m hMem n List.mem_cons_self
  have hLaterNe : ∀ m ∈ later, m ≠ n := by
    rintro m hMem rfl
    exact (List.nodup_cons.mp hTail).1 hMem
  have hNotRenting : ¬ ∃ rent, (PoolPc.idle : PoolPc Node) = .rent rent := by simp
  have hNotEnded : thread.ended ≠ true := by
    intro hEnded
    have hNil := (h.ended hEnded).2.2
    rw [hLeft] at hNil
    cases hNil
  refine ⟨_, by rw [hNow]; exact TestLoop.access_current _ _, ?_⟩
  unfold TestThread.pass
  cases hSecond : thread.second with
  | false =>
      refine ⟨fun m hMem => ?_, fun m hMem => ?_, fun m hMem => ?_, fun hNil => ?_, fun hGive => absurd hGive hLoop,
        fun hRenting => absurd hRenting hNotRenting, fun hEnded => absurd hEnded hNotEnded, h.failed⟩
      · exact (Function.update_of_ne (hPassedNe m hMem) _ _).trans (h.passed m hMem)
      · obtain rfl : n = m := by simpa [hLeft] using hMem
        exact Function.update_self ..
      · have hMem' : m ∈ later := by simpa [hLeft] using hMem
        exact (Function.update_of_ne (hLaterNe m hMem') _ _).trans (hLater m hMem')
      · cases hLeft.symm.trans hNil
  | true =>
      refine ⟨fun m hMem => ?_, fun m hMem => ?_, fun m hMem => ?_, fun _ => rfl, fun hGive => absurd hGive hLoop,
        fun hRenting => absurd hRenting hNotRenting, fun hEnded => absurd hEnded hNotEnded, h.failed⟩
      · rcases List.mem_append.mp hMem with hOld | hNew
        · exact (Function.update_of_ne (hPassedNe m hOld) _ _).trans (h.passed m hOld)
        · obtain rfl := List.mem_singleton.mp hNew
          exact Function.update_self ..
      · have hMem' : m ∈ later := List.mem_of_mem_head? hMem
        exact (Function.update_of_ne (hLaterNe m hMem') _ _).trans
          ((hLater m hMem').trans (TestLoop.current_false _).symm)
      · have hMem' : m ∈ later := List.mem_of_mem_tail hMem
        exact (Function.update_of_ne (hLaterNe m hMem') _ _).trans (hLater m hMem')

omit [DecidableEq Node] in
theorem TestThread.pass_held {thread : TestThread Node} {n : Node} {later : List Node}
    (hLeft : thread.left = n :: later) : (thread.pass n later).held = thread.held := by
  unfold TestThread.pass
  split
  · rw [TestThread.held, TestThread.held, hLeft, List.append_assoc, List.singleton_append]
  · rfl

omit [DecidableEq Node] in
theorem TestThread.turn_held {thread : TestThread Node} (hLeft : thread.left = []) :
    thread.turn.held = thread.held := by
  rw [TestThread.held, TestThread.held, hLeft, List.append_nil]
  rfl

/-- What a step of a call does to the blocks and to the caller. -/
theorem PoolPc.step_cases {pool : ObjectPoolLockFree Node} {pc : PoolPc Node} {block : Option Node}
    {a : PoolAdvance Node} (h : pc.step pool block = some a) :
    (∃ n, pc = .rent .allocateFreeBlockNodes ∧ block = some n ∧ n ∉ pool.allocated ∧
        a = ⟨pool.allocateFreeBlockNodes n, .rent (.incrementMaxCapacity n), none⟩) ∨
      (∃ n, pc = .rent (.incrementUsedSize n) ∧ a.pool.allocated = pool.allocated ∧ a.pc = .idle ∧
        a.rented = some n) ∨
      (pc ≠ .idle ∧ (pc = .rent .allocateFreeBlockNodes → block = none) ∧
        a.pool.allocated = pool.allocated ∧ a.rented = none ∧
        ((∃ rent, a.pc = .rent rent) → ∃ rent, pc = .rent rent)) := by
  cases pc with
  | idle | crashed => cases h
  | rent pc =>
      cases pc with
      | allocateFreeBlockNodes =>
          cases block with
          | none =>
              cases h
              simp
          | some n =>
              obtain ⟨hFresh, hNext⟩ := Option.ite_none_left_eq_some.mp h
              cases hNext
              exact .inl ⟨n, rfl, rfl, hFresh, rfl⟩
      | incrementUsedSize n =>
          cases h
          exact .inr (.inl ⟨n, rfl, rfl, rfl, rfl⟩)
      | decrementCachedSize | incrementCachedSize | incrementMaxCapacity | loadNode | loadUID =>
          cases h
          simp
      | loadNext headSnapshot =>
          simp only [PoolPc.step, RentPc.step] at h
          split at h <;> cases h <;> simp
      | compareExchange headSnapshot next =>
          simp only [PoolPc.step, RentPc.step] at h
          split at h
          · cases h
            simp
          · rename_i pool' hOk
            obtain ⟨_, rfl⟩ := ObjectPoolLockFree.compareExchangeHead_eq_ok.mp hOk
            split at h <;> cases h <;> simp
      | construct n =>
          simp only [PoolPc.step, RentPc.step] at h
          split at h
          · cases h
            refine .inr (.inr ⟨by simp, by simp, ?_, rfl, fun _ => ⟨_, rfl⟩⟩)
            split <;> rfl
          · cases h
            simp
  | giveBack pc =>
      refine .inr (.inr ⟨by simp, by simp, ?_⟩)
      obtain rfl : pc.step pool = a := Option.some.inj h
      cases pc with
      | destroy n =>
          simp only [ReturnPc.step]
          split
          · refine ⟨?_, rfl, by simp⟩
            split <;> rfl
          · simp
      | compareExchange n headSnapshot =>
          simp only [ReturnPc.step]
          split
          · simp
          · rename_i pool' hOk
            obtain ⟨_, rfl⟩ := ObjectPoolLockFree.compareExchangeHead_eq_ok.mp hOk
            simp
      | loadNode | loadUID | storeNext | incrementCachedSize | decrementUsedSize =>
          simp [ReturnPc.step, ObjectPoolLockFree.storeNext]

section Runs

variable [Fintype Thread] {s s' : StressTest Thread Node} {uid : UInt64} {updates MAX : Nat} {t : Thread} {n : Node}

/-- The rented objects are in the arrays, one thread's each, and the others are as they were made. -/
structure StressTest.Sound (uid : UInt64) (updates : Nat) (s : StressTest Thread Node) : Prop where
  holds : s.system.Holds uid updates
  rented : s.system.rented = crewTotal TestThread.held s.threads
  free : ∀ n ∈ s.system.pool.allocated, n ∉ s.system.rented → s.objects n = .new
  threads : ∀ t, (s.threads t).Sound s.objects (s.system.threads t)

namespace StressTest

omit [DecidableEq Thread] [DecidableEq Node] in
theorem Sound.nodup (h : s.Sound uid updates) : (crewTotal TestThread.held s.threads).Nodup := by
  rw [← h.rented]
  exact (Multiset.nodup_add.mp h.holds.oneHolder.oneHolder).2.1

omit [DecidableEq Thread] [DecidableEq Node] in
/-- A rented object is the pool's. -/
theorem Sound.allocated (h : s.Sound uid updates) (hMem : n ∈ s.system.rented) : n ∈ s.system.pool.allocated := by
  obtain ⟨freeList, _, _, hPlaces⟩ := h.holds.oneHolder.kept
  rw [← Multiset.mem_coe, hPlaces]
  exact Multiset.mem_add.mpr (.inr hMem)

omit [DecidableEq Thread] [DecidableEq Node] in
theorem Sound.mem_rented (h : s.Sound uid updates) (hMem : n ∈ (s.threads t).held) : n ∈ s.system.rented := by
  rw [h.rented, crewTotal]
  exact Multiset.mem_sum.mpr ⟨t, Finset.mem_univ t, hMem⟩

omit [DecidableEq Thread] [DecidableEq Node] in
/-- A block in a thread's hands is allocated and not rented. -/
theorem Sound.inHand (h : s.Sound uid updates) (hHand : n ∈ (s.system.threads t).hand) :
    n ∈ s.system.pool.allocated ∧ n ∉ s.system.rented := by
  have hMem : n ∈ s.system.hands := Multiset.mem_sum.mpr ⟨t, Finset.mem_univ t, hHand⟩
  have hOne := h.holds.oneHolder
  obtain ⟨freeList, _, _, hPlaces⟩ := hOne.kept
  refine ⟨?_, fun hRented => Multiset.disjoint_left.mp (Multiset.nodup_add.mp hOne.oneHolder).2.2 hMem hRented⟩
  rw [← Multiset.mem_coe, hPlaces]
  exact Multiset.mem_add.mpr (.inl (Multiset.mem_add.mpr (.inr hMem)))

omit [DecidableEq Node] in
/-- No other thread has it. -/
theorem Sound.apart (h : s.Sound uid updates) (hMem : n ∈ (s.threads t).held) {t' : Thread} (hOther : t' ≠ t) :
    n ∉ (s.threads t').held := by
  have hNodup := h.nodup
  rw [crewTotal_split _ _ t] at hNodup
  intro hTwice
  exact Multiset.disjoint_left.mp (Multiset.nodup_add.mp hNodup).2.2 hMem (mem_crewOthers hOther hTwice)

omit [DecidableEq Node] [Fintype Thread] in
/-- A thread moves and the others are not disturbed. -/
theorem sound_update {objects : Node → BData} {pcs : Thread → PoolPc Node} {pc : PoolPc Node}
    {threads : Thread → TestThread Node} {thread : TestThread Node} (hSelf : thread.Sound objects pc)
    (hOthers : ∀ t', t' ≠ t → (threads t').Sound objects (pcs t')) (t' : Thread) :
    (Function.update threads t thread t').Sound objects (Function.update pcs t pc t') := by
  by_cases hSame : t' = t
  · subst hSame
    rw [Function.update_self, Function.update_self]
    exact hSelf
  · rw [Function.update_of_ne hSame, Function.update_of_ne hSame]
    exact hOthers t' hSame

theorem Sound.poolStep {block : Option Node} (h : s.Sound uid updates) (hStep : s.poolStep t block = some s')
    (hBudget : updates + s.headUpdate s' < 2 ^ 64) : s'.Sound uid (updates + s.headUpdate s') := by
  obtain ⟨a, hRun, rfl⟩ : ∃ a, (s.system.threads t).step s.system.pool block = some a ∧
      s' = ⟨s.system.advance t a, construct s.objects (s.system.threads t) block,
        receive s.threads t a.rented⟩ := by
    unfold StressTest.poolStep at hStep
    split at hStep
    · cases hStep
    · obtain ⟨a, hRun, hNext⟩ := Option.map_eq_some_iff.mp hStep
      exact ⟨a, hRun, hNext.symm⟩
  have hSystem : s.system.step (.run t block) = some (s.system.advance t a) :=
    congrArg (Option.map _) hRun
  have hHolds : (s.system.advance t a).Holds uid (updates + s.system.headUpdate (s.system.advance t a)) :=
    h.holds.step hSystem hBudget
  obtain ⟨n, hPc, rfl, hFresh, rfl⟩ | ⟨n, hPc, hAllocated, hIdle, hRented⟩ |
    ⟨hBusy, hOther, hAllocated, hRented, hRent⟩ := PoolPc.step_cases hRun
  · have hConstruct : construct s.objects (s.system.threads t) (some n) = Function.update s.objects n .new := by
      rw [hPc]
      rfl
    have hSame : ∀ t', ∀ m ∈ (s.threads t').held, Function.update s.objects n .new m = s.objects m := by
      intro t' m hMem
      refine Function.update_of_ne ?_ _ _
      rintro rfl
      exact hFresh (h.allocated (h.mem_rented hMem))
    rw [hConstruct]
    refine ⟨hHolds, (zero_add _).trans h.rented, fun m hMem hFree => ?_, fun t' => ?_⟩
    · rcases List.mem_cons.mp hMem with rfl | hOld
      · exact Function.update_self ..
      · have hNot : m ∉ s.system.rented := fun hRented => hFree (by simpa [PoolSystem.advance] using hRented)
        by_cases hmn : m = n
        · rw [hmn]
          exact Function.update_self ..
        · exact (Function.update_of_ne hmn _ _).trans (h.free m hOld hNot)
    · have hOld : ∀ t', (s.threads t').Sound (Function.update s.objects n .new) (s.system.threads t') :=
        fun t' => (h.threads t').frame (hSame t')
      have hSelf : (s.threads t).Sound (Function.update s.objects n .new) (.rent (.incrementMaxCapacity n)) :=
        (hOld t).goOn (by simp [hPc]) (fun _ => ⟨_, hPc⟩)
      have hAll := sound_update (t := t) hSelf (fun t' _ => hOld t') t'
      rwa [Function.update_eq_self] at hAll
  · have hConstruct : construct s.objects (s.system.threads t) block = s.objects := by
      rw [hPc]
      rfl
    have hHand : n ∈ (s.system.threads t).hand := by
      rw [hPc]
      exact Multiset.mem_singleton_self n
    have hNew : s.objects n = .new := (h.free n (h.inHand hHand).1 (h.inHand hHand).2)
    have hSelf := h.threads t
    rw [hPc] at hSelf
    rw [hConstruct, hRented]
    refine ⟨hHolds, ?_, fun m hMem hFree => ?_, fun t' => ?_⟩
    · have hLeft : (s.threads t).left = [] := (hSelf.renting ⟨_, rfl⟩).2
      simp only [PoolSystem.advance, hRented, Option.elim_some, receive, crewTotal_update, h.rented,
        crewTotal_split TestThread.held s.threads t, TestThread.held, hLeft, List.append_nil]
      rw [← Multiset.coe_add, Multiset.coe_singleton]
      abel
    · rw [show (s.system.advance t a).pool.allocated = s.system.pool.allocated from hAllocated] at hMem
      refine h.free m hMem fun hOld => hFree ?_
      exact Multiset.mem_add.mpr (.inr hOld)
    · have hAll := sound_update (t := t) (hSelf.receive hNew) (fun t' _ => h.threads t') t'
      rw [← hIdle] at hAll
      exact hAll
  · have hConstruct : construct s.objects (s.system.threads t) block = s.objects := by
      unfold construct
      split
      · rename_i n hPc
        cases hOther hPc
      · rfl
    rw [hConstruct, hRented]
    refine ⟨hHolds, ?_, fun m hMem hFree => ?_, fun t' => ?_⟩
    · exact (congrArg (· + s.system.rented) (by rw [hRented]; rfl)).trans ((zero_add _).trans h.rented)
    · rw [show (s.system.advance t a).pool.allocated = s.system.pool.allocated from hAllocated] at hMem
      exact h.free m hMem fun hOld => hFree (Multiset.mem_add.mpr (.inr hOld))
    · have hAll := sound_update (t := t) ((h.threads t).goOn hBusy hRent) (fun t' _ => h.threads t') t'
      rwa [Function.update_eq_self] at hAll

omit [DecidableEq Node] in
/-- A thread moves by itself, and changes none but its own objects. -/
theorem Sound.goto {thread : TestThread Node} {objects : Node → BData} (h : s.Sound uid updates)
    (hIdle : s.system.threads t = .idle) (hHeld : thread.held = (s.threads t).held)
    (hSelf : thread.Sound objects .idle) (hSame : ∀ m, m ∉ (s.threads t).held → objects m = s.objects m) :
    ({ s.goto t thread with objects := objects } : StressTest Thread Node).Sound uid updates := by
  refine ⟨h.holds, h.rented.trans (crewTotal_same hHeld).symm, fun m hMem hFree => ?_, fun t' => ?_⟩
  · exact (hSame m fun hHas => hFree (h.mem_rented hHas)).trans (h.free m hMem hFree)
  · have hOthers : ∀ t', t' ≠ t → (s.threads t').Sound objects (s.system.threads t') := by
      intro t' hOther
      refine (h.threads t').frame fun m hMem => hSame m fun hHas => h.apart hHas hOther hMem
    have hAll := sound_update (t := t) hSelf hOthers t'
    rw [← hIdle, Function.update_eq_self] at hAll
    exact hAll

/-- `Rent` is called. -/
theorem Sound.callRent {system : PoolSystem Thread Node} (h : s.Sound uid updates)
    (hIdle : s.system.threads t = .idle) (hLoop : (s.threads t).loop = .rent) (hLeft : (s.threads t).left = [])
    (hEnded : (s.threads t).ended = false) (hStep : s.system.step (.callRent t) = some system)
    (hBudget : updates + s.system.headUpdate system < 2 ^ 64) :
    ({ s with system := system } : StressTest Thread Node).Sound uid (updates + s.system.headUpdate system) := by
  have hHolds := h.holds.step hStep hBudget
  rw [PoolSystem.step, hIdle] at hStep
  cases hStep
  refine ⟨hHolds, h.rented, h.free, fun t' => ?_⟩
  have hAll := sound_update (t := t) ((h.threads t).callRent hLoop hLeft hEnded) (fun t' _ => h.threads t') t'
  rwa [Function.update_eq_self] at hAll

/-- `Return` is called. -/
theorem Sound.callReturn {system : PoolSystem Thread Node} {later : List Node} (h : s.Sound uid updates)
    (hIdle : s.system.threads t = .idle) (hLoop : (s.threads t).loop = .giveBack)
    (hLeft : (s.threads t).left = n :: later) (hStep : s.system.step (.callReturn t (some n)) = some system)
    (hBudget : updates + s.system.headUpdate system < 2 ^ 64) :
    ({ s.goto t { s.threads t with left := later } with system := system } : StressTest Thread Node).Sound uid
      (updates + s.system.headUpdate system) := by
  have hHolds := h.holds.step hStep hBudget
  obtain ⟨hNew, hSelf⟩ := (h.threads t).callReturn hLoop hLeft
  simp only [PoolSystem.step, hIdle] at hStep
  obtain ⟨_, hNext⟩ := Option.ite_none_right_eq_some.mp hStep
  cases hNext
  refine ⟨hHolds, ?_, fun m hMem hFree => ?_, fun t' => ?_⟩
  · have hPassed := ((h.threads t).giveBack hLoop).1
    have hSplit : s.system.rented = n ::ₘ (↑later + crewOthers TestThread.held s.threads t) := by
      rw [h.rented, crewTotal_split _ _ t, TestThread.held, hPassed, hLeft, List.nil_append, ← Multiset.cons_coe,
        Multiset.cons_add]
    refine (congrArg (Multiset.erase · n) hSplit).trans ?_
    rw [Multiset.erase_cons_head]
    refine Eq.trans ?_ (crewTotal_update TestThread.held s.threads t _).symm
    simp only [TestThread.held, hPassed, List.nil_append]
  · by_cases hmn : m = n
    · rw [hmn]
      exact hNew
    · exact h.free m hMem fun hRented => hFree ((Multiset.mem_erase_of_ne hmn).mpr hRented)
  · exact sound_update (t := t) hSelf (fun t' _ => h.threads t') t'

theorem Sound.threadStep (h : s.Sound uid updates) (hIdle : s.system.threads t = .idle)
    (hEnded : (s.threads t).ended = false) (hStep : s.threadStep MAX t = some s')
    (hBudget : updates + s.headUpdate s' < 2 ^ 64) : s'.Sound uid (updates + s.headUpdate s') := by
  have hQuiet {s'' : StressTest Thread Node} (hSound : s''.Sound uid updates) (hSame : s''.system = s.system) :
      s''.Sound uid (updates + s.headUpdate s'') := by
    rw [StressTest.headUpdate, hSame, PoolSystem.headUpdate_same rfl]
    exact hSound
  have hTurn (hLeft : (s.threads t).left = []) :
      (s.goto t (s.threads t).turn).Sound uid (updates + s.headUpdate (s.goto t (s.threads t).turn)) := by
    have hSelf := h.threads t
    rw [hIdle] at hSelf
    exact hQuiet (h.goto hIdle (TestThread.turn_held hLeft) (hSelf.turn hLeft hEnded) fun m _ => rfl) rfl
  unfold StressTest.threadStep at hStep
  dsimp only at hStep
  split at hStep
  · rename_i hLoop hLeft
    split at hStep
    · obtain ⟨system, hCall, rfl⟩ := Option.map_eq_some_iff.mp hStep
      exact h.callRent hIdle hLoop hLeft hEnded hCall hBudget
    · cases hStep
      exact hTurn hLeft
  · rename_i n later hLoop hLeft
    obtain ⟨system, hCall, rfl⟩ := Option.map_eq_some_iff.mp hStep
    exact h.callReturn hIdle hLoop hLeft hCall hBudget
  · rename_i hLeft _
    cases hStep
    exact hTurn hLeft
  · rename_i n later hLeft hLoop
    have hSelf := h.threads t
    rw [hIdle] at hSelf
    have hNodup : ((s.threads t).passed ++ (s.threads t).left).Nodup := by
      have hAll := h.nodup
      rw [crewTotal_split _ _ t] at hAll
      exact Multiset.coe_nodup.mp (Multiset.nodup_add.mp hAll).1
    obtain ⟨object, hAccess, hPass⟩ := hSelf.pass hLeft hLoop hNodup
    have hHeld : n ∈ (s.threads t).held := by
      rw [TestThread.held, hLeft]
      exact List.mem_append_right _ List.mem_cons_self
    rw [hAccess] at hStep
    obtain rfl := Option.some.inj hStep
    refine hQuiet (h.goto hIdle (TestThread.pass_held hLeft) hPass fun m hNot => ?_) rfl
    refine Function.update_of_ne ?_ _ _
    rintro rfl
    exact hNot hHeld

/-- One step keeps what the threads know. -/
theorem Sound.step {a : TestAction Thread Node} (h : s.Sound uid updates) (hStep : s.step MAX a = some s')
    (hBudget : updates + s.headUpdate s' < 2 ^ 64) : s'.Sound uid (updates + s.headUpdate s') := by
  cases a with
  | pool t block => exact h.poolStep hStep hBudget
  | thread t =>
      simp only [StressTest.step] at hStep
      split at hStep
      · rename_i hIdle
        obtain ⟨hGoes, hNext⟩ := Option.ite_none_left_eq_some.mp hStep
        simp only [Bool.or_eq_true, not_or, Bool.not_eq_true] at hGoes
        exact h.threadStep hIdle hGoes.2 hNext hBudget
      · cases hStep
  | quit t =>
      simp only [StressTest.step] at hStep
      split at hStep
      · rename_i second failed ended hIdle hThread
        cases hStep
        have hSelf := h.threads t
        rw [hIdle, hThread] at hSelf
        rw [StressTest.headUpdate, show (s.goto t _).system = s.system from rfl, PoolSystem.headUpdate_same rfl]
        have hGoto : ({ s.goto t ⟨.rent, [], [], second, failed, true⟩ with objects := s.objects } :
            StressTest Thread Node).Sound uid updates :=
          h.goto hIdle (by rw [hThread]; rfl) { hSelf with ended := fun _ => ⟨rfl, rfl, rfl⟩ } fun m _ => rfl
        exact hGoto
      · cases hStep

omit [DecidableEq Thread] [DecidableEq Node] in
theorem start_sound (uid : UInt64) (nodes : Node → BlockNode Node) (objects : Node → BData) :
    (StressTest.start uid nodes objects : StressTest Thread Node).Sound uid 0 := by
  refine ⟨PoolSystem.Holds.start uid .None nodes, ?_, fun n hMem => ?_, fun t => ?_⟩
  · exact (crewTotal_eq_zero fun _ => rfl).symm
  · cases hMem
  · constructor <;> simp [StressTest.start, PoolSystem.start]

/-- However the threads of the test interleave while `malloc` succeeds, no assertion fails and no thread
crashes, the rented objects are those in the arrays and each is in one array only, and once all threads
have ended the pool has none in use. -/
theorem asserts_hold (nodes : Node → BlockNode Node) (objects : Node → BData)
    (h : Spends (Takes (StressTest.step MAX)) headUpdate (StressTest.start uid nodes objects) updates s)
    (hUpdates : updates < 2 ^ 64) :
    (∀ t, (s.threads t).failed = false ∧ s.system.threads t ≠ .crashed) ∧
      s.system.rented = crewTotal TestThread.held s.threads ∧
      (crewTotal TestThread.held s.threads).Nodup ∧
      ((∀ t, (s.threads t).ended = true) → s.system.pool.mUsedSize = 0) := by
  have hSound : s.Sound uid updates := h.invariant (start_sound uid nodes objects)
    (fun hSound hStep hBudget => hSound.step hStep hBudget) hUpdates
  refine ⟨fun t => ⟨(hSound.threads t).failed, hSound.holds.oneHolder.notCrashed t⟩, hSound.rented,
    hSound.nodup, fun hEnded => ?_⟩
  obtain ⟨freeList, _, hCounted⟩ := hSound.holds
  have hUsed := (hCounted.of_idle fun t => ((hSound.threads t).ended (hEnded t)).1).2.1
  have hNone : s.system.rented = 0 := by
    rw [hSound.rented]
    refine crewTotal_eq_zero fun t => ?_
    obtain ⟨_, hPassed, hLeft⟩ := (hSound.threads t).ended (hEnded t)
    rw [TestThread.held, hPassed, hLeft]
    rfl
  rw [hUsed, hNone]
  rfl

/-- One thread is between the two increments of its object when the other one has rented. -/
private def twoTesters : List (TestAction Bool Nat) :=
  List.flatten [[.thread false], List.replicate 6 (.pool false (some 7)), List.replicate 4 (.thread false),
    [.thread true], List.replicate 6 (.pool true (some 8))]

/-- One object is incremented once when the other thread rents its own. -/
theorem asserts_hold_twoTesters : ∃ s : StressTest Bool Nat,
    s.system.rented = crewTotal TestThread.held s.threads ∧ s.objects 7 = ⟨DATA + 1, 0⟩ ∧
      (s.threads true).left = [8] := by
  have hRun : (exec (StressTest.step 1)
      (StressTest.start 18446744073709551615 (fun _ => ⟨none, 0, false, 0⟩) fun _ => ⟨7, 7⟩) twoTesters).map
      (fun s => decide (s.objects 7 = ⟨DATA + 1, 0⟩ ∧ (s.threads true).left = [8])) = some true := by
    decide +kernel
  obtain ⟨s, hExec, hEnd⟩ := Option.map_eq_some_iff.mp hRun
  obtain ⟨updates, hUpdates, hSpends⟩ :=
    spends_of_exec (fun s s' => s.system.headUpdate_le_one s'.system) hExec
  have hLength : twoTesters.length = 18 := rfl
  exact ⟨s, (asserts_hold _ _ hSpends (by omega)).2.1, of_decide_eq_true hEnd⟩

end StressTest

end Runs

end NfNetwork.ObjectPool
