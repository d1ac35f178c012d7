import NfNetwork.Collections.QueueLists

/-! What goes in comes out once. Every value passed to `Enqueue` is in one place: on its
way in, in a list, on its way out, or dealt with; `mUsedSize` lags behind by the
threads in between. -/
namespace NfNetwork.Collections

open Machinery

variable {Thread Node Value : Type}

section Values

/-- The value that a mark passes in. -/
def QueueMark.passed : QueueMark Value → Option Value
  | .callEnqueue v => some v
  | _ => none

def QueueMark.added : QueueMark Value → Option Value
  | .enqueued v => some v
  | _ => none

def QueueMark.refused : QueueMark Value → Option Value
  | .threw v => some v
  | _ => none

def QueueMark.taken : QueueMark Value → Option Value
  | .dequeued v => some v
  | _ => none

/-- The values that some marks of a history are about. -/
def valuesOf (select : QueueMark Value → Option Value) (history : List (Thread × QueueMark Value)) :
    List Value :=
  history.filterMap fun entry => select entry.2

/-- The value that the mark of a step is about. -/
def valueOf (select : QueueMark Value → Option Value) (mark : Option (QueueMark Value)) :
    Multiset Value :=
  (mark.bind select).elim 0 fun v => {v}

theorem valuesOf_concat (select : QueueMark Value → Option Value)
    (history : List (Thread × QueueMark Value)) (t : Thread) (mark : Option (QueueMark Value)) :
    (valuesOf select (history ++ mark.toList.map (Prod.mk t)) : Multiset Value) =
      valuesOf select history + valueOf select mark := by
  rw [valuesOf, valuesOf, List.filterMap_append, ← Multiset.coe_add]
  congr 1
  cases mark with
  | none => rfl
  | some mark =>
      cases hSelect : select mark <;> simp [valueOf, hSelect]

/-- A value that a thread has in its hands. -/
def QueuePc.held : QueuePc Node Value → Multiset Value
  | .enqueue v .rent | .enqueue v (.storeData _) | .enqueue v (.storeNext _)
  | .tryDequeue (.giveBack _ v) | .tryDequeue (.leave v) => {v}
  | _ => 0

/-- The value of the node that a step puts into a list. -/
def QueuePc.stores : QueuePc Node Value → Multiset Value
  | .enqueue v (.storeNext _) => {v}
  | _ => 0

/-- The value that a step takes out of the main list. -/
def QueuePc.pops [DecidableEq Node] (queue : LockFreeQueue Node Value) :
    QueuePc Node Value → Multiset Value
  | .tryDequeue (.moveHead snapshotHead _ v) => if queue.mHead = snapshotHead then {v} else 0
  | _ => 0

/-- The value that a thread has passed and not been told about. -/
def QueuePc.passing : QueuePc Node Value → Multiset Value
  | .enqueue v _ => {v}
  | _ => 0

/-- With a node in a list that `mUsedSize` does not count yet. -/
def QueuePc.uncounted : QueuePc Node Value → Bool
  | .enqueue _ (.loadTailNode _) | .enqueue _ (.loadTailUID _ _) | .enqueue _ (.loadNext _ _)
  | .enqueue _ (.moveTail _ _ _) | .enqueue _ (.reloadTailNode _ _) | .enqueue _ (.link _ _ _)
  | .enqueue _ (.swingTail _ _) | .enqueue _ .incrementUsedSize => true
  | _ => false

/-- Past the decrement of `mUsedSize` that lets a thread take a value. -/
def QueuePc.admitted : QueuePc Node Value → Bool
  | .tryDequeue .loadHeadNode | .tryDequeue (.loadHeadUID _) | .tryDequeue (.loadTailNode _)
  | .tryDequeue (.loadTailUID _ _) | .tryDequeue (.loadHeadNext _ _)
  | .tryDequeue (.loadTailNext _ _ _) | .tryDequeue (.moveTail _ _ _ _)
  | .tryDequeue (.reloadTailNode _ _) | .tryDequeue (.reloadTailNext _ _ _)
  | .tryDequeue (.loadData _ _) | .tryDequeue (.moveHead _ _ _) => true
  | _ => false

/-- Past the decrement of `mUsedSize` that finds the queue empty. -/
def QueuePc.refused : QueuePc Node Value → Bool
  | .tryDequeue .incrementUsedSize => true
  | _ => false

end Values

/-- What the queue promises. -/
structure QueueSystem.Exact (s : QueueSystem Thread Node Value) : Prop where
  /-- A returned value was passed to an `Enqueue`, and each occurrence is returned once. -/
  once : (valuesOf QueueMark.taken s.history : Multiset Value) ≤ valuesOf QueueMark.passed s.history
  notCrashed : ∀ t, s.threads t ≠ .crashed
  /-- When no operation is in progress, the list behind the dummy node is what is left. -/
  atRest : (∀ t, s.threads t = .idle) → ∃ dummyNode nodes,
    Chain s.queue.next s.queue.mHead.DummyNode (dummyNode :: nodes) none ∧
    (nodes.map s.queue.data : Multiset Value) + valuesOf QueueMark.taken s.history =
      valuesOf QueueMark.added s.history ∧
    s.queue.mUsedSize = nodes.length

section Steps

variable [DecidableEq Node] {queue : LockFreeQueue Node Value} {pc : QueuePc Node Value}
  {fresh : Option Node} {a : QueueAdvance Node Value}

attribute [local simp] QueuePc.held QueuePc.stores QueuePc.pops QueuePc.passing valueOf
  QueueMark.passed QueueMark.added QueueMark.refused QueueMark.taken

/-- A step passes a value on. -/
theorem QueuePc.step_held (hStep : pc.step queue fresh = some a) (hAlive : a.pc ≠ .crashed) :
    a.pc.held + valueOf QueueMark.taken a.mark + valueOf QueueMark.refused a.mark + pc.stores =
      pc.held + pc.pops queue := by
  cases pc with
  | idle | crashed => cases hStep
  | enqueue v pc =>
      cases pc
      all_goals simp only [QueuePc.step, EnqueuePc.step, deref] at hStep
      all_goals repeat' split at hStep
      all_goals cases hStep
      all_goals simp_all
  | tryDequeue pc =>
      cases pc
      all_goals simp only [QueuePc.step, DequeuePc.step, deref] at hStep
      all_goals repeat' split at hStep
      all_goals cases hStep
      all_goals simp_all

theorem QueuePc.step_passing (hStep : pc.step queue fresh = some a) (hAlive : a.pc ≠ .crashed) :
    a.pc.passing + valueOf QueueMark.added a.mark + valueOf QueueMark.refused a.mark = pc.passing ∧
      valueOf QueueMark.passed a.mark = 0 := by
  cases pc with
  | idle | crashed => cases hStep
  | enqueue v pc =>
      cases pc
      all_goals simp only [QueuePc.step, EnqueuePc.step, deref] at hStep
      all_goals repeat' split at hStep
      all_goals cases hStep
      all_goals simp_all
  | tryDequeue pc =>
      cases pc
      all_goals simp only [QueuePc.step, DequeuePc.step, deref] at hStep
      all_goals repeat' split at hStep
      all_goals cases hStep
      all_goals simp_all

/-- A step moves its thread from one count to another. -/
theorem QueuePc.step_counts (hStep : pc.step queue fresh = some a) (hAlive : a.pc ≠ .crashed) :
    a.queue.mUsedSize + a.pc.admitted.toNat + a.pc.refused.toNat + a.pc.uncounted.toNat +
        (pc.takes queue).card =
      queue.mUsedSize + pc.admitted.toNat + pc.refused.toNat + pc.uncounted.toNat +
        pc.publishes.card := by
  cases pc with
  | idle | crashed => cases hStep
  | enqueue v pc =>
      cases pc
      all_goals simp only [QueuePc.step, EnqueuePc.step, deref] at hStep
      all_goals repeat' split at hStep
      all_goals cases hStep
      all_goals simp_all [QueuePc.admitted, QueuePc.refused, QueuePc.uncounted, QueuePc.takes,
        QueuePc.publishes, LockFreeQueue.storeData, LockFreeQueue.storeNext]
  | tryDequeue pc =>
      cases pc
      all_goals simp only [QueuePc.step, DequeuePc.step, deref] at hStep
      all_goals repeat' split at hStep
      all_goals cases hStep
      all_goals simp_all [QueuePc.admitted, QueuePc.refused, QueuePc.uncounted, QueuePc.takes,
        QueuePc.publishes]

end Steps

section Accounts

variable [Fintype Thread]

/-- The counter and the values against the lists and the threads. -/
structure QueueSystem.Accounted (s : QueueSystem Thread Node Value) (published : Multiset Node) :
    Prop where
  size : s.queue.mUsedSize + crewCount QueuePc.admitted s.threads +
    crewCount QueuePc.refused s.threads + crewCount QueuePc.uncounted s.threads + 1 = published.card
  values : ∃ dummyNode, s.queue.mHead.DummyNode = some dummyNode ∧
    published.map s.queue.data + crewTotal QueuePc.held s.threads +
        valuesOf QueueMark.taken s.history + valuesOf QueueMark.refused s.history =
      {s.queue.data dummyNode} + valuesOf QueueMark.passed s.history
  calls : (valuesOf QueueMark.passed s.history : Multiset Value) =
    crewTotal QueuePc.passing s.threads + valuesOf QueueMark.added s.history +
      valuesOf QueueMark.refused s.history

variable [DecidableEq Node] {s : QueueSystem Thread Node Value}
  {lists lists' : QueueLists Thread Node} {t : Thread} {fresh : Option Node}
  {a : QueueAdvance Node Value} {n : Node} {published published' : Multiset Node}

omit [Fintype Thread] in
theorem QueuePc.pops_of_takes {queue : LockFreeQueue Node Value} {pc : QueuePc Node Value}
    (hTakes : pc.takes queue = 0) (hHead : queue.mHead.DummyNode = some n) : pc.pops queue = 0 := by
  cases pc with
  | tryDequeue pc =>
      cases pc with
      | moveHead snapshotHead next v =>
          by_cases hNow : queue.mHead = snapshotHead
          · rw [QueuePc.takes, if_pos hNow, ← hNow, hHead] at hTakes
            simp at hTakes
          · exact if_neg hNow
      | _ => rfl
  | _ => rfl

/-- The dummy node's value changes with the dummy node. -/
theorem QueueSystem.Shaped.dummy (h : s.Shaped lists) (hMoves : (s.threads t).Moves s.queue a)
    (hData : ∀ n ∈ lists.published, a.queue.data n = s.queue.data n)
    (hHead : s.queue.mHead.DummyNode = some n) : ∃ m, a.queue.mHead.DummyNode = some m ∧
      {a.queue.data m} + ((s.threads t).takes s.queue).map a.queue.data =
        {s.queue.data n} + (s.threads t).pops s.queue := by
  have hSame : ∀ hHeadSame : a.queue.mHead = s.queue.mHead, (s.threads t).takes s.queue = 0 →
      ∃ m, a.queue.mHead.DummyNode = some m ∧
        {a.queue.data m} + ((s.threads t).takes s.queue).map a.queue.data =
          {s.queue.data n} + (s.threads t).pops s.queue := by
    intro hHeadSame hTakes
    refine ⟨n, hHeadSame ▸ hHead, ?_⟩
    rw [hTakes, QueuePc.pops_of_takes hTakes hHead,
      hData n (QueueLists.published_of_main (h.head_mem hHead))]
    rfl
  have hSound := h.sound t
  generalize hPc : s.threads t = pc at *
  cases hMoves with
  | quiet used hQueue _ _ _ hTakes => exact hSame (by rw [hQueue]) hTakes
  | moveTail next hQueue _ _ _ _ hTakes => exact hSame (by rw [hQueue]; rfl) hTakes
  | rent | storeData | storeNext | link | giveBack => exact hSame rfl rfl
  | @take v m next hNode =>
      obtain ⟨_, _, _, hRead⟩ := hSound
      cases hHead.symm.trans hNode
      refine ⟨next, rfl, ?_⟩
      simp only [QueuePc.takes, QueuePc.pops, hNode, if_true, Option.elim_some,
        Multiset.map_singleton]
      rw [← hRead rfl, add_comm]
      rfl

/-- A node goes into a list with the value of its enqueuer. -/
theorem QueueSystem.Shaped.stored (h : s.Shaped lists) (hMoves : (s.threads t).Moves s.queue a) :
    (s.threads t).publishes.map a.queue.data = (s.threads t).stores := by
  have hSound := h.sound t
  generalize s.threads t = pc at *
  cases hMoves with
  | quiet _ _ _ _ hPublishes _ | moveTail _ _ _ _ _ hPublishes _ =>
      rw [hPublishes]
      cases pc with
      | enqueue v pc =>
          cases pc with
          | storeNext m => simp [QueuePc.publishes] at hPublishes
          | _ => rfl
      | _ => rfl
  | rent | storeData | link | take | giveBack => rfl
  | @storeNext v m =>
      simp only [QueuePc.publishes, QueuePc.stores, Multiset.map_singleton]
      rw [s.queue.storeNext_data]
      exact congrArg _ hSound

variable [DecidableEq Thread]

theorem QueueSystem.Accounted.run (h : s.Accounted lists.published) (hShaped : s.Shaped lists)
    (hStep : (s.threads t).step s.queue fresh = some a) (hAlive : a.pc ≠ .crashed)
    (hPublished : lists'.published + (s.threads t).takes s.queue =
      lists.published + (s.threads t).publishes)
    (hData : ∀ n ∈ lists.published, a.queue.data n = s.queue.data n) :
    (s.advance t a).Accounted lists'.published := by
  have hMoves := (hShaped.moves hStep).2
  obtain ⟨hPassing, hNone⟩ := QueuePc.step_passing hStep hAlive
  refine ⟨?_, ?_, ?_⟩
  · have hAdmitted := crewCount_update QueuePc.admitted s.threads t a.pc
    have hRefused := crewCount_update QueuePc.refused s.threads t a.pc
    have hUncounted := crewCount_update QueuePc.uncounted s.threads t a.pc
    have hCounts := QueuePc.step_counts hStep hAlive
    have hCard := congrArg Multiset.card hPublished
    have hSize := h.size
    rw [Multiset.card_add, Multiset.card_add] at hCard
    rw [QueueSystem.advance]
    dsimp only
    omega
  · obtain ⟨d, hHead, hValues⟩ := h.values
    obtain ⟨m, hNode, hDummy⟩ := hShaped.dummy hMoves hData hHead
    have hHeld := QueuePc.step_held hStep hAlive
    have hLists := congrArg (Multiset.map a.queue.data) hPublished
    rw [Multiset.map_add, Multiset.map_add, hShaped.stored hMoves,
      Multiset.map_congr rfl hData] at hLists
    rw [crewTotal_split _ _ t] at hValues
    refine ⟨m, hNode, ?_⟩
    rw [QueueSystem.advance, valuesOf_concat, valuesOf_concat, valuesOf_concat, crewTotal_update, hNone,
      add_zero]
    dsimp only
    apply add_right_cancel (b := ((s.threads t).takes s.queue).map a.queue.data)
    generalize crewOthers QueuePc.held s.threads t = others at *
    generalize (valuesOf QueueMark.taken s.history : Multiset Value) = taken at *
    generalize (valuesOf QueueMark.refused s.history : Multiset Value) = refused at *
    generalize (valuesOf QueueMark.passed s.history : Multiset Value) = passed at *
    calc lists'.published.map a.queue.data + (a.pc.held + others) +
          (taken + valueOf QueueMark.taken a.mark) + (refused + valueOf QueueMark.refused a.mark) +
          ((s.threads t).takes s.queue).map a.queue.data
        = (lists'.published.map a.queue.data + ((s.threads t).takes s.queue).map a.queue.data) +
          (a.pc.held + valueOf QueueMark.taken a.mark + valueOf QueueMark.refused a.mark) +
          (others + taken + refused) := by abel
      _ = lists.published.map s.queue.data +
          (a.pc.held + valueOf QueueMark.taken a.mark + valueOf QueueMark.refused a.mark +
            (s.threads t).stores) + (others + taken + refused) := by rw [hLists]; abel
      _ = (lists.published.map s.queue.data + ((s.threads t).held + others) + taken + refused) +
          (s.threads t).pops s.queue := by rw [hHeld]; abel
      _ = ({s.queue.data d} + (s.threads t).pops s.queue) + passed := by rw [hValues]; abel
      _ = {a.queue.data m} + passed + ((s.threads t).takes s.queue).map a.queue.data := by
        rw [← hDummy]; abel
  · have hCalls := h.calls
    rw [crewTotal_split _ _ t, ← hPassing] at hCalls
    rw [QueueSystem.advance, valuesOf_concat, valuesOf_concat, valuesOf_concat, crewTotal_update, hNone,
      add_zero, hCalls]
    abel

end Accounts

section Runs

variable [Fintype Thread] {s s' : QueueSystem Thread Node Value} {t : Thread}

/-- The invariant of the queue. -/
def QueueSystem.Holds (s : QueueSystem Thread Node Value) : Prop :=
  ∃ lists, s.Shaped lists ∧ s.Accounted lists.published

theorem QueueSystem.Holds.exact (h : s.Holds) : s.Exact := by
  obtain ⟨lists, hShaped, hAccounted⟩ := h
  obtain ⟨d, later, hMain, hHead⟩ := hShaped.main_eq
  obtain ⟨d', hHead', hValues⟩ := hAccounted.values
  cases hHead.symm.trans hHead'
  have hPublished : lists.published = {d} + ((later : Multiset Node) +
      crewTotal (fun cells : List Node => (cells : Multiset Node)) lists.limbo) := by
    rw [QueueLists.published, hMain, ← Multiset.cons_coe, ← Multiset.singleton_add, add_assoc]
  -- the value of the dummy node has been returned before
  have hPassed : ((later : Multiset Node) +
      crewTotal (fun cells : List Node => (cells : Multiset Node)) lists.limbo).map s.queue.data +
        crewTotal QueuePc.held s.threads + valuesOf QueueMark.refused s.history +
        valuesOf QueueMark.taken s.history = valuesOf QueueMark.passed s.history := by
    apply add_left_cancel (a := {s.queue.data d})
    rw [← hValues, hPublished]
    simp only [Multiset.map_add, Multiset.map_singleton]
    abel
  refine ⟨?_, ?_, ?_⟩
  · rw [← hPassed]
    exact Multiset.le_add_left _ _
  · intro t hCrashed
    have hSound := hShaped.sound t
    rw [hCrashed] at hSound
    exact hSound
  · intro hIdle
    have hNone : ∀ f : QueuePc Node Value → Multiset Value, f .idle = 0 →
        crewTotal f s.threads = 0 :=
      fun f hf => crewTotal_eq_zero fun t => by rw [hIdle t, hf]
    have hZero : ∀ kind : QueuePc Node Value → Bool, kind .idle = false →
        crewCount kind s.threads = 0 :=
      fun kind hKind => crewCount_eq_zero fun t => by rw [hIdle t, hKind]
    have hLimbo : crewTotal (fun cells : List Node => (cells : Multiset Node)) lists.limbo = 0 := by
      apply crewTotal_eq_zero
      intro t
      have hMine := hShaped.limbo t
      rw [hIdle t] at hMine
      rw [show lists.limbo t = [] from hMine, Multiset.coe_nil]
    refine ⟨d, later, ?_, ?_, ?_⟩
    · rw [← hMain]
      exact hShaped.list
    · have hCalls := hAccounted.calls
      rw [← hPassed, hLimbo, hNone QueuePc.held rfl, hNone QueuePc.passing rfl] at hCalls
      apply add_right_cancel (b := (valuesOf QueueMark.refused s.history : Multiset Value))
      rw [zero_add, add_zero, add_zero, Multiset.map_coe] at hCalls
      rw [← hCalls]
      abel
    · have hSize := hAccounted.size
      rw [hZero QueuePc.admitted rfl, hZero QueuePc.refused rfl, hZero QueuePc.uncounted rfl,
        hPublished, hLimbo] at hSize
      simp only [Multiset.card_add, Multiset.card_singleton, Multiset.coe_card,
        Multiset.card_zero] at hSize
      omega

variable [DecidableEq Thread]

/-- A call takes over the value it is passed. -/
theorem QueueSystem.Accounted.call {published : Multiset Node} {a : QueueAdvance Node Value}
    (h : s.Accounted published) (hIdle : s.threads t = .idle) (hQueue : a.queue = s.queue)
    (hOutside : a.pc.admitted = false ∧ a.pc.refused = false ∧ a.pc.uncounted = false)
    (hHeld : a.pc.held = valueOf QueueMark.passed a.mark)
    (hPassing : a.pc.passing = valueOf QueueMark.passed a.mark)
    (hOther : valueOf QueueMark.taken a.mark = 0 ∧ valueOf QueueMark.refused a.mark = 0 ∧
      valueOf QueueMark.added a.mark = 0) : (s.advance t a).Accounted published := by
  obtain ⟨hTaken, hRefusedMark, hAdded⟩ := hOther
  refine ⟨?_, ?_, ?_⟩
  · have hAdmitted := crewCount_update QueuePc.admitted s.threads t a.pc
    have hRefused := crewCount_update QueuePc.refused s.threads t a.pc
    have hUncounted := crewCount_update QueuePc.uncounted s.threads t a.pc
    rw [hIdle, hOutside.1] at hAdmitted
    rw [hIdle, hOutside.2.1] at hRefused
    rw [hIdle, hOutside.2.2] at hUncounted
    simp only [QueuePc.admitted, QueuePc.refused, QueuePc.uncounted, Bool.toNat_false, add_zero]
      at hAdmitted hRefused hUncounted
    have hSize := h.size
    rw [QueueSystem.advance, hQueue]
    dsimp only
    rw [hAdmitted, hRefused, hUncounted]
    exact hSize
  · obtain ⟨d, hHead, hValues⟩ := h.values
    rw [crewTotal_split _ _ t, hIdle] at hValues
    refine ⟨d, ?_, ?_⟩
    · rw [QueueSystem.advance, hQueue]
      exact hHead
    · rw [QueueSystem.advance, hQueue, valuesOf_concat, valuesOf_concat, valuesOf_concat,
        crewTotal_update, hTaken, hRefusedMark, ← hHeld]
      dsimp only
      rw [← add_assoc ({s.queue.data d} : Multiset Value), ← hValues]
      simp only [QueuePc.held]
      abel
  · have hCalls := h.calls
    rw [crewTotal_split _ _ t, hIdle] at hCalls
    rw [QueueSystem.advance, valuesOf_concat, valuesOf_concat, valuesOf_concat, crewTotal_update, hAdded,
      hRefusedMark, ← hPassing, hCalls]
    simp only [QueuePc.passing]
    abel

variable [DecidableEq Node]

omit [DecidableEq Thread] in
theorem QueueSystem.start_holds (dummyNode : Node) (nodes : Node → QueueNode Node Value) :
    (QueueSystem.start dummyNode nodes : QueueSystem Thread Node Value).Holds := by
  have hZero : ∀ kind : QueuePc Node Value → Bool, kind .idle = false →
      crewCount kind (fun _ : Thread => QueuePc.idle) = 0 :=
    fun kind hKind => crewCount_eq_zero fun _ => hKind
  have hNone : ∀ f : QueuePc Node Value → Multiset Value, f .idle = 0 →
      crewTotal f (fun _ : Thread => QueuePc.idle) = 0 :=
    fun f hf => crewTotal_eq_zero fun _ => hf
  have hLimbo : crewTotal (fun cells : List Node => (cells : Multiset Node))
      (fun _ : Thread => ([] : List Node)) = 0 := crewTotal_eq_zero fun _ => rfl
  refine ⟨_, QueueSystem.start_shaped dummyNode nodes, ?_, ⟨dummyNode, rfl, ?_⟩, ?_⟩
  · simp [QueueSystem.start, LockFreeQueue.storeNext, QueueLists.published, hLimbo,
      hZero QueuePc.admitted rfl, hZero QueuePc.refused rfl, hZero QueuePc.uncounted rfl]
  · simp [QueueSystem.start, QueueLists.published, hLimbo, valuesOf, hNone QueuePc.held rfl]
  · simp [QueueSystem.start, valuesOf, hNone QueuePc.passing rfl]

theorem QueueSystem.Holds.step {action : QueueAction Thread Node Value} (h : s.Holds)
    (hGuard : s.Unwrapped action) (hStep : s.step action = some s') : s'.Holds := by
  obtain ⟨lists, hShaped, hAccounted⟩ := h
  cases action with
  | callEnqueue t v =>
      simp only [QueueSystem.step] at hStep
      split at hStep <;> cases hStep
      rename_i hIdle
      exact ⟨lists, hShaped.call hIdle rfl rfl rfl True.intro,
        hAccounted.call hIdle rfl ⟨rfl, rfl, rfl⟩ rfl rfl ⟨rfl, rfl, rfl⟩⟩
  | callTryDequeue t =>
      simp only [QueueSystem.step] at hStep
      split at hStep <;> cases hStep
      rename_i hIdle
      exact ⟨lists, hShaped.call hIdle rfl rfl rfl True.intro,
        hAccounted.call hIdle rfl ⟨rfl, rfl, rfl⟩ rfl rfl ⟨rfl, rfl, rfl⟩⟩
  | run t fresh =>
      obtain ⟨hHead, hTail⟩ := hGuard s' hStep
      obtain ⟨a, hRun, rfl⟩ := Option.map_eq_some_iff.mp hStep
      obtain ⟨lists', hShaped', hPublished, hData⟩ := hShaped.run hRun hHead hTail
      refine ⟨lists', hShaped', hAccounted.run hShaped hRun (fun hCrashed => ?_) hPublished hData⟩
      have hSound := (hShaped.moves hRun).1
      rw [hCrashed] at hSound
      exact hSound

/-- In every run in which no tag wraps around, the queue loses, duplicates and invents
nothing. -/
theorem QueueSystem.exact_of_reachable (dummyNode : Node) (nodes : Node → QueueNode Node Value)
    (h : Reachable (Takes QueueSystem.step) QueueSystem.Unwrapped
      (QueueSystem.start dummyNode nodes) s) : s.Exact :=
  (h.invariant (QueueSystem.start_holds dummyNode nodes) fun _ hHolds hGuard hStep =>
    hHolds.step hGuard hStep).exact

/-- A test of `Unwrapped`. -/
def QueueSystem.unwrapped (s : QueueSystem Thread Node Value) (action : QueueAction Thread Node Value) :
    Bool :=
  (s.step action).all fun s' =>
    s.queue.mHead.UID ≤ s'.queue.mHead.UID && s.queue.mTail.UID ≤ s'.queue.mTail.UID

omit [Fintype Thread] in
theorem QueueSystem.unwrapped_of_test {action : QueueAction Thread Node Value}
    (h : s.unwrapped action = true) : s.Unwrapped action := by
  intro s' hStep
  simpa [QueueSystem.unwrapped, hStep] using h

end Runs

section Schedules

/-- A thread makes `k` steps. -/
def QueueAction.runs (t : Thread) (k : Nat) : List (QueueAction Thread Node Value) :=
  List.replicate k (.run t none)

/-- A thread calls `Enqueue`, is given a node and makes `k` more steps. -/
def QueueAction.enqueues (t : Thread) (v : Value) (n : Node) (k : Nat) :
    List (QueueAction Thread Node Value) :=
  .callEnqueue t v :: .run t (some n) :: runs t k

/-- A thread calls `TryDequeue` and makes `k` steps. -/
def QueueAction.dequeues (t : Thread) (k : Nat) : List (QueueAction Thread Node Value) :=
  .callTryDequeue t :: runs t k

open QueueAction in
/-- One thread links its node behind the node that another is about to enqueue. -/
private def linkEarly : List (QueueAction (Fin 3) Nat Nat) :=
  enqueues 0 1 1 6 ++ enqueues 2 9 2 9 ++ dequeues 2 11 ++ enqueues 1 2 0 2 ++ runs 0 3 ++ runs 1 7 ++
    dequeues 2 14

theorem QueueSystem.exact_of_reachable_linkEarly : ∃ s : QueueSystem (Fin 3) Nat Nat, s.Exact ∧
    valuesOf QueueMark.added s.history = [9, 1, 2] ∧
    valuesOf QueueMark.taken s.history = [9, 2] ∧ s.queue.mUsedSize = 1 := by
  have hRun : (exec (checked QueueSystem.unwrapped QueueSystem.step)
      (QueueSystem.start 0 fun _ => ⟨none, 0⟩) linkEarly).map (fun s => decide
        (valuesOf QueueMark.added s.history = [9, 1, 2] ∧
          valuesOf QueueMark.taken s.history = [9, 2] ∧ s.queue.mUsedSize = 1)) = some true := by
    decide +kernel
  obtain ⟨s, hExec, hEnd⟩ := Option.map_eq_some_iff.mp hRun
  exact ⟨s, QueueSystem.exact_of_reachable 0 _
    (reachable_of_checked QueueSystem.unwrapped_of_test hExec), of_decide_eq_true hEnd⟩

/-- A dequeuer sleeps before its exchange; the worker keeps one value in the queue. -/
private structure Lap (s : QueueSystem Bool Nat Nat) (x y : Nat) (head tail : UInt64) : Prop where
  head : s.queue.mHead = ⟨head, some x⟩
  tail : s.queue.mTail = ⟨tail, some y⟩
  size : s.queue.mUsedSize = 0
  first : s.queue.next x = some y
  last : s.queue.next y = none
  rented : s.queue.rented = {x, y}
  worker : s.threads false = .idle
  sleeper : s.threads true = .tryDequeue (.moveHead ⟨0, some 0⟩ 1 1)
  passed : (valuesOf QueueMark.passed s.history).count 1 = 1
  taken : (valuesOf QueueMark.taken s.history).count 1 ≠ 0

/-- The worker enqueues a value with a free node and dequeues the one before. -/
private def lap (z : Nat) : List (QueueAction Bool Nat Nat) :=
  QueueAction.enqueues false 2 z 9 ++ QueueAction.dequeues false 11

private theorem Lap.next {s : QueueSystem Bool Nat Nat} {x y z : Nat} {head tail : UInt64}
    (h : Lap s x y head tail) (hxy : x ≠ y) (hxz : x ≠ z) (hyz : y ≠ z) :
    ∃ s', exec QueueSystem.step s (lap z) = some s' ∧ Lap s' y z (head + 1) (tail + 1) := by
  obtain ⟨⟨mHead, mTail, used, nodes, rented⟩, threads, history⟩ := s
  obtain ⟨hHead, hTail, hSize, hFirst, hLast, hRented, hWorker, hSleeper, hPassed, hTaken⟩ := h
  dsimp only at hHead hTail hSize hRented hWorker hSleeper hPassed hTaken
  subst hHead hTail hSize hRented
  simp only [LockFreeQueue.next] at hFirst hLast
  simp [lap, QueueAction.enqueues, QueueAction.dequeues, QueueAction.runs, exec, List.replicate,
    QueueSystem.step, QueueSystem.advance, QueuePc.step, EnqueuePc.step, DequeuePc.step, deref,
    LockFreeQueue.next, LockFreeQueue.data, LockFreeQueue.storeNext, LockFreeQueue.storeData,
    LockFreeQueue.moveTail, hWorker, hFirst, hLast, hxy, hxz, hyz, hxz.symm, hyz.symm]
  rw [valuesOf] at hPassed hTaken
  constructor <;> simp [LockFreeQueue.next, valuesOf, hyz.symm]
  · exact Multiset.pair_comm z y
  · exact hSleeper
  · simpa [QueueMark.passed] using hPassed
  · exact fun hNone => absurd hNone hTaken

/-- After each lap the dummy node is the next of four nodes, under the next tag. -/
private theorem laps (k : Nat) : ∃ s : QueueSystem Bool Nat Nat,
    Reachable (Takes QueueSystem.step) (fun _ _ => True) (QueueSystem.start 0 fun _ => ⟨none, 0⟩) s ∧
      Lap s ((k + 1) % 4) ((k + 2) % 4) (UInt64.ofNat (k + 1)) (UInt64.ofNat (k + 2)) := by
  induction k with
  | zero =>
      have hRun : (exec QueueSystem.step (QueueSystem.start 0 fun _ => ⟨none, 0⟩)
          (QueueAction.enqueues false 1 1 9 ++ QueueAction.dequeues true 8 ++ lap 2)).map
          (fun s => decide ((s.queue.mHead = ⟨1, some 1⟩ ∧ s.queue.mTail = ⟨2, some 2⟩ ∧
            s.queue.mUsedSize = 0 ∧ s.queue.next 1 = some 2 ∧ s.queue.next 2 = none) ∧
            s.queue.rented = {1, 2} ∧ s.threads false = .idle ∧
            s.threads true = .tryDequeue (.moveHead ⟨0, some 0⟩ 1 1) ∧
            (valuesOf QueueMark.passed s.history).count 1 = 1 ∧
            (valuesOf QueueMark.taken s.history).count 1 ≠ 0)) = some true := by decide +kernel
      obtain ⟨s, hExec, hEnd⟩ := Option.map_eq_some_iff.mp hRun
      obtain ⟨⟨hHead, hTail, hSize, hFirst, hLast⟩, hRented, hWorker, hSleeper, hPassed, hTaken⟩ :=
        of_decide_eq_true hEnd
      exact ⟨s, reachable_of_exec hExec,
        ⟨hHead, hTail, hSize, hFirst, hLast, hRented, hWorker, hSleeper, hPassed, hTaken⟩⟩
  | succ k ih =>
      obtain ⟨s, hReachable, hLap⟩ := ih
      obtain ⟨s', hExec, hNext⟩ := hLap.next (z := (k + 3) % 4) (by omega) (by omega) (by omega)
      refine ⟨s', hReachable.trans (reachable_of_exec hExec), ?_⟩
      rwa [← UInt64.ofNat_one, ← UInt64.ofNat_add, ← UInt64.ofNat_add] at hNext

/-- After 2^64 laps the tag and the dummy node are those of the snapshot: the sleeper
returns a value that has been returned. -/
theorem QueueSystem.not_exact_of_wrapped : ∃ s : QueueSystem Bool Nat Nat,
    Reachable (Takes QueueSystem.step) (fun _ _ => True) (QueueSystem.start 0 fun _ => ⟨none, 0⟩) s ∧
      ¬ s.Exact := by
  obtain ⟨s, hReachable, hLap⟩ := laps (2 ^ 64 - 1)
  have hHead : s.queue.mHead = ⟨0, some 0⟩ := hLap.head
  have hWake : ∃ s', exec QueueSystem.step s (List.replicate 3 (.run true none)) = some s' ∧
      s'.history = s.history ++ [(true, .dequeued 1)] := by
    simp [exec, List.replicate, QueueSystem.step, QueueSystem.advance, QueuePc.step, DequeuePc.step,
      deref, hLap.sleeper, hHead]
  obtain ⟨s', hExec, hHistory⟩ := hWake
  refine ⟨s', hReachable.trans (reachable_of_exec hExec), fun hExact => ?_⟩
  have hOnce := Multiset.count_le_of_le 1 hExact.once
  have hPassed := hLap.passed
  have hTaken := hLap.taken
  rw [hHistory] at hOnce
  simp [valuesOf, QueueMark.passed, QueueMark.taken] at hOnce hPassed hTaken
  omega

end Schedules

end NfNetwork.Collections
