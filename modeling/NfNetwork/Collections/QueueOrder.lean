import NfNetwork.Collections.QueueExact
import NfNetwork.Machinery.Linear

/-! First in, first out. While no thread links its node behind a node that has left the main list, the
values behind the dummy node are an abstract queue: linking a node puts a value in, moving the head
takes one out, each between the call and its return. -/
namespace NfNetwork.Collections

open Machinery

variable {Thread Node Value : Type}

section Marks

/-- A mark as what an abstract queue is asked and answers. -/
def QueueMark.outer : QueueMark Value → FifoOp Value ⊕ FifoResult Value
  | .callEnqueue v => .inl (.enqueue v)
  | .enqueued v => .inr (.enqueued v)
  | .threw v => .inr (.threw v)
  | .callTryDequeue => .inl .tryDequeue
  | .dequeued v => .inr (.dequeued v)
  | .empty => .inr .empty

/-- The calls and returns of a run. -/
def QueueSystem.calls (s : QueueSystem Thread Node Value) :
    List (Thread × (FifoOp Value ⊕ FifoResult Value)) :=
  s.history.map fun entry => (entry.1, entry.2.outer)

/-- A value is passed to `Enqueue` as often as it is called. -/
theorem QueueSystem.calledOps_calls (s : QueueSystem Thread Node Value) (v : Value)
    [DecidableEq Value] :
    (calledOps s.calls).count (.enqueue v) = (valuesOf QueueMark.passed s.history).count v := by
  rw [QueueSystem.calls]
  induction s.history with
  | nil => rfl
  | cons entry history ih =>
      obtain ⟨t, mark⟩ := entry
      cases mark
      case callEnqueue v' =>
        have hCalled : (FifoOp.enqueue v' == FifoOp.enqueue v) = (v' == v) := by
          by_cases hSame : v' = v <;> simp [hSame]
        refine (List.count_cons ..).trans ?_
        rw [hCalled]
        exact (congrArg (· + _) ih).trans (List.count_cons ..).symm
      all_goals exact ih

end Marks

section Phases

/-- Where a call stands, in the eyes of the abstract queue. -/
def EnqueuePc.phase (inputData : Value) : EnqueuePc Node → Phase (FifoOp Value) (FifoResult Value)
  | .swingTail _ _ | .incrementUsedSize => .effected (.enqueued inputData)
  | _ => .called (.enqueue inputData)

def DequeuePc.phase : DequeuePc Node Value → Phase (FifoOp Value) (FifoResult Value)
  | .incrementUsedSize => .effected .empty
  | .giveBack _ outputData | .leave outputData => .effected (.dequeued outputData)
  | _ => .called .tryDequeue

def QueuePc.phase : QueuePc Node Value → Phase (FifoOp Value) (FifoResult Value)
  | .enqueue inputData pc => pc.phase inputData
  | .tryDequeue pc => pc.phase
  | .idle | .crashed => .idle

/-- What a step is for the abstract queue: nothing, a call, its effect, its return, or both of these. -/
inductive Turn (mayRefuse : List Value → Prop) : Phase (FifoOp Value) (FifoResult Value) →
    Phase (FifoOp Value) (FifoResult Value) → Option (QueueMark Value) → List Value → List Value →
    Prop where
  | quiet (phase : Phase (FifoOp Value) (FifoResult Value)) (values : List Value) :
      Turn mayRefuse phase phase none values values
  | call {op : FifoOp Value} {mark : QueueMark Value} (h : mark.outer = .inl op)
      (values : List Value) : Turn mayRefuse .idle (.called op) (some mark) values values
  | effect {op : FifoOp Value} {result : FifoResult Value} {values values' : List Value}
      (h : FifoApply mayRefuse values op result values') :
      Turn mayRefuse (.called op) (.effected result) none values values'
  | ret {result : FifoResult Value} {mark : QueueMark Value} (h : mark.outer = .inr result)
      (values : List Value) : Turn mayRefuse (.effected result) .idle (some mark) values values
  | throw (v : Value) (values : List Value) :
      Turn mayRefuse (.called (.enqueue v)) .idle (some (.threw v)) values values

variable {mayRefuse : List Value → Prop} {values values' : List Value}

/-- A turn of one thread is the call, effect and return that it shows outside. -/
theorem Turn.points [DecidableEq Thread] (phases : Thread → Phase (FifoOp Value) (FifoResult Value))
    {old phase : Phase (FifoOp Value) (FifoResult Value)} {mark : Option (QueueMark Value)} {t : Thread}
    (hOld : phases t = old) (h : Turn mayRefuse old phase mark values values') :
    ∃ points, Points (FifoApply mayRefuse) phases values points (Function.update phases t phase) values' ∧
      observed points = mark.toList.map fun mark => (t, mark.outer) := by
  cases h with
  | quiet =>
      refine ⟨[], ?_, rfl⟩
      rw [← hOld, Function.update_eq_self]
      exact .nil _ _
  | @call op mark hMark values =>
      refine ⟨_, .single ?_ (.call values op), ?_⟩
      · rw [hOld]
        exact .call _
      · simp [observed, Point.observed, hMark]
  | effect hApply =>
      refine ⟨_, .single ?_ (.effect hApply), rfl⟩
      rw [hOld]
      exact .effect _ _
  | @ret result mark hMark values =>
      refine ⟨_, .single ?_ (.ret values result), ?_⟩
      · rw [hOld]
        exact .ret _
      · simp [observed, Point.observed, hMark]
  | throw v values =>
      have hEffect : (phases t).Next (.effect (.enqueue v) (.threw v)) (.effected (.threw v)) := by
        rw [hOld]
        exact .effect _ _
      have hRet : (Function.update phases t (.effected (.threw v)) t).Next (.ret (FifoResult.threw v))
          .idle := by
        rw [Function.update_self]
        exact .ret _
      have hApply : FifoApply mayRefuse values (.enqueue v) (.threw v) values := .throw values v
      have hPoints := Points.cons hEffect (.effect hApply)
        (.single hRet (.ret values (FifoResult.threw v)))
      rw [Function.update_idem] at hPoints
      exact ⟨_, hPoints, rfl⟩

variable [DecidableEq Node] {queue : LockFreeQueue Node Value} {fresh : Option Node}
  {a : QueueAdvance Node Value}

/-- An `Enqueue` takes effect at the exchange that links its node. -/
theorem EnqueuePc.turn {v : Value} {pc : EnqueuePc Node} (hStep : pc.step queue v fresh = some a)
    (hAlive : a.pc ≠ .crashed)
    (hLink : ∀ n snapshotTail m, pc = .link n snapshotTail (some m) → queue.next m = none →
      values' = values ++ [v])
    (hKeeps : (∀ n snapshotTail m, pc = .link n snapshotTail (some m) → queue.next m ≠ none) →
      values' = values) : Turn mayRefuse (pc.phase v) a.pc.phase a.mark values values' := by
  cases pc
  case link n snapshotTail tailNode =>
    cases tailNode with
    | none =>
        cases hStep
        exact absurd rfl hAlive
    | some m =>
        simp only [EnqueuePc.step, deref] at hStep
        split at hStep <;> cases hStep
        · rename_i hEnd
          rw [hLink n snapshotTail m rfl hEnd]
          exact .effect (.enqueue values v)
        · rename_i hNot
          rw [hKeeps (by rintro _ _ _ hSame; cases hSame; exact hNot)]
          exact .quiet _ _
  all_goals rw [hKeeps (by simp)]
  case incrementUsedSize =>
    cases hStep
    exact .ret rfl values
  case rent =>
    simp only [EnqueuePc.step] at hStep
    split at hStep
    · cases hStep
      exact .throw v values
    · split at hStep <;> cases hStep
      exact .quiet _ _
  all_goals simp only [EnqueuePc.step, deref] at hStep
  all_goals repeat' split at hStep
  all_goals cases hStep
  all_goals first | exact .quiet _ _ | exact absurd rfl hAlive

/-- A `TryDequeue` takes effect where it moves the head, or where it finds the size at zero. -/
theorem DequeuePc.turn {pc : DequeuePc Node Value} (hAlive : (pc.step queue).pc ≠ .crashed)
    (hRefuse : pc = .decrementUsedSize → queue.mUsedSize - 1 < 0 → mayRefuse values)
    (hTake : ∀ next v, pc = .moveHead queue.mHead next v → values = v :: values')
    (hKeeps : (∀ next v, pc ≠ .moveHead queue.mHead next v) → values' = values) :
    Turn mayRefuse pc.phase (pc.step queue).pc.phase (pc.step queue).mark values values' := by
  cases pc
  case moveHead snapshotHead next v =>
    simp only [DequeuePc.step, deref] at hAlive ⊢
    split
    · rename_i hNow
      subst hNow
      rw [hTake next v rfl]
      split
      · rename_i hNull
        simp [hNull] at hAlive
      · exact .effect (.dequeue v values')
    · rename_i hNot
      rw [hKeeps (by rintro _ _ hSame; cases hSame; exact hNot rfl)]
      exact .quiet _ _
  all_goals rw [hKeeps (by simp)]
  case decrementUsedSize =>
    simp only [DequeuePc.step]
    split
    · rename_i hUnder
      exact .effect (.refuse (hRefuse rfl hUnder))
    · exact .quiet _ _
  case incrementUsedSize | leave => exact .ret rfl values
  all_goals simp only [DequeuePc.step, deref] at hAlive ⊢
  all_goals repeat' split
  all_goals first | exact .quiet _ _ | simp_all

end Phases

section Lists

/-- The node is one of those that `mHead` leads to. -/
def LockFreeQueue.Reaches (queue : LockFreeQueue Node Value) (n : Node) : Prop :=
  ∃ cells, Chain queue.next queue.mHead.DummyNode cells none ∧ n ∈ cells

/-- An enqueuer's node has nothing behind it, and the value that it was rented for in it. -/
def QueuePc.Keeps (queue : LockFreeQueue Node Value) : QueuePc Node Value → Prop
  | .enqueue v pc => ∀ n, pc.published = some n → queue.next n = none ∧ queue.data n = v
  | _ => True

variable [DecidableEq Node] {queue : LockFreeQueue Node Value} {fresh : Option Node}
  {a : QueueAdvance Node Value}

/-- Helping the tail along changes no node. -/
theorem LockFreeQueue.moveTail_nodes (node : Node) (comparand : Indexer Node) :
    (queue.moveTail node comparand).nodes = queue.nodes := by
  rw [moveTail]
  split <;> rfl

/-- What a node holds once it is linked does not change any more. -/
theorem EnqueuePc.step_keeps {v : Value} {pc : EnqueuePc Node} (hStep : pc.step queue v fresh = some a)
    (hStored : ∀ n, pc = .storeNext n → queue.data n = v)
    (hKeeps : (QueuePc.enqueue v pc).Keeps queue) : a.pc.Keeps a.queue := by
  cases pc
  case storeNext n =>
    cases hStep
    rintro m hPublished
    cases hPublished
    constructor
    · exact (congrFun (queue.storeNext_next n none) n).trans (Function.update_self ..)
    · exact (congrFun (queue.storeNext_data n none) n).trans (hStored n rfl)
  case moveTail n snapshotTail next =>
    cases hStep
    intro m hPublished
    have hSame := hKeeps m hPublished
    rw [LockFreeQueue.next, LockFreeQueue.data] at hSame ⊢
    rwa [LockFreeQueue.moveTail_nodes]
  all_goals simp only [EnqueuePc.step, deref] at hStep
  all_goals repeat' split at hStep
  all_goals cases hStep
  all_goals first | trivial | exact hKeeps | (intro m hNone; cases hNone)

/-- A `TryDequeue` reads the value of the node behind the one it takes. -/
theorem DequeuePc.step_keeps (pc : DequeuePc Node Value) :
    (pc.step queue).pc.Keeps (pc.step queue).queue := by
  cases pc
  all_goals simp only [DequeuePc.step, deref]
  all_goals repeat' split
  all_goals trivial

/-- Only a store to a node of its own and a link change the successor of a node. -/
theorem QueuePc.Moves.next_eq {pc : QueuePc Node Value} {n : Node} (h : pc.Moves queue a)
    (hHand : n ∉ pc.hand)
    (hLink : ∀ v m snapshotTail, pc = .enqueue v (.link m snapshotTail (some n)) →
      queue.next n ≠ none) : a.queue.next n = queue.next n := by
  cases h with
  | quiet used hQueue =>
      rw [hQueue]
      rfl
  | moveTail next hQueue =>
      rw [hQueue]
      rfl
  | rent | take | giveBack => rfl
  | storeData => exact congrFun (queue.storeData_next _ _) n
  | @storeNext v m =>
      refine (congrFun (queue.storeNext_next m none) n).trans (Function.update_of_ne ?_ ..)
      rintro rfl
      exact hHand (Multiset.mem_singleton_self n)
  | @link v m k snapshotTail hEnd =>
      refine (congrFun (queue.storeNext_next k (some m)) n).trans (Function.update_of_ne ?_ ..)
      rintro rfl
      exact hLink v m snapshotTail rfl hEnd

/-- The values behind the dummy node. -/
def QueueLists.values (lists : QueueLists Thread Node) (queue : LockFreeQueue Node Value) : List Value :=
  lists.main.tail.map queue.data

namespace QueueSystem.Shaped

variable [Fintype Thread] {s : QueueSystem Thread Node Value} {lists lists' : QueueLists Thread Node}
  {t : Thread} {n m : Node}

omit [DecidableEq Node] in
/-- What can be reached from the head is in the main list. -/
theorem mem_main (h : s.Shaped lists) (hReaches : s.queue.Reaches n) : n ∈ lists.main := by
  obtain ⟨cells, hCells, hMem⟩ := hReaches
  rwa [h.list.unique hCells]

omit [DecidableEq Node] in
/-- A published node that is not linked yet is in its thread's private list. -/
theorem mem_limbo (h : s.Shaped lists) (hPublished : (s.threads t).published = some n) :
    n ∈ lists.limbo t := by
  have hLimbo := h.limbo t
  rw [hPublished] at hLimbo
  obtain ⟨later, hCells, _⟩ := hLimbo.1.eq_cons
  rw [hCells]
  exact List.mem_cons_self

variable [DecidableEq Thread]

/-- The others keep their nodes. -/
theorem keeps_others {t' : Thread} (h : s.Shaped lists) (hMoves : (s.threads t).Moves s.queue a)
    (hListed : ∀ v n snapshotTail m, s.threads t = .enqueue v (.link n snapshotTail (some m)) →
      s.queue.next m = none → m ∈ lists.main)
    (hData : ∀ n ∈ lists.published, a.queue.data n = s.queue.data n)
    (hKeeps : (s.threads t').Keeps s.queue) : (s.threads t').Keeps a.queue := by
  cases hPc : s.threads t' with
  | idle | tryDequeue | crashed => trivial
  | enqueue v pc =>
      intro n hPublished
      have hFront : (s.threads t').published = some n := by
        rw [hPc]
        exact hPublished
      have hLimbo := h.mem_limbo hFront
      rw [hPc] at hKeeps
      obtain ⟨hEnd, hValue⟩ := hKeeps n hPublished
      constructor
      · rw [hMoves.next_eq, hEnd]
        · intro hHand
          exact (h.hand_apart hHand).1 (QueueLists.published_of_limbo hLimbo)
        · intro v' k snapshotTail hLink hNone
          exact (h.limbo_apart hLimbo).1 (hListed v' k snapshotTail n hLink hNone)
      · rw [hData n (QueueLists.published_of_limbo hLimbo), hValue]

/-- The main list stays unless a node is linked or the head is moved. -/
theorem values_keep (h : s.Shaped lists) (h' : (s.advance t a).Shaped lists')
    (hMoves : (s.threads t).Moves s.queue a)
    (hData : ∀ n ∈ lists.published, a.queue.data n = s.queue.data n)
    (hLink : ∀ v n snapshotTail m, s.threads t = .enqueue v (.link n snapshotTail (some m)) →
      s.queue.next m ≠ none)
    (hTake : ∀ next v, s.threads t ≠ .tryDequeue (.moveHead s.queue.mHead next v)) :
    lists'.values a.queue = lists.values s.queue := by
  have hHead : a.queue.mHead = s.queue.mHead := by
    generalize s.threads t = pc at hMoves hTake
    cases hMoves with
    | quiet used hQueue => rw [hQueue]
    | moveTail next hQueue =>
        rw [hQueue]
        rfl
    | take => exact absurd rfl (hTake _ _)
    | rent | storeData | storeNext | link | giveBack => rfl
  have hList : Chain a.queue.next a.queue.mHead.DummyNode lists.main none := by
    rw [hHead]
    apply h.list.congr
    intro n hMem
    apply hMoves.next_eq
    · intro hHand
      exact (h.hand_apart hHand).1 (QueueLists.published_of_main hMem)
    · intro v m snapshotTail hPc
      exact hLink v m snapshotTail n hPc
  have hMain : lists'.main = lists.main := h'.list.unique hList
  rw [QueueLists.values, QueueLists.values, hMain]
  apply List.map_congr_left
  intro n hMem
  exact hData n (QueueLists.published_of_main (List.mem_of_mem_tail hMem))

/-- A node that is linked behind the main list brings its value. -/
theorem values_link {v : Value} {snapshotTail : Indexer Node} (h : s.Shaped lists)
    (hPc : s.threads t = .enqueue v (.link n snapshotTail (some m)))
    (hQueue : a.queue = s.queue.storeNext m (some n)) (h' : (s.advance t a).Shaped lists')
    (hData : ∀ n ∈ lists.published, a.queue.data n = s.queue.data n) (hEnd : s.queue.next m = none)
    (hMem : m ∈ lists.main) (hKeeps : (s.threads t).Keeps s.queue) :
    lists'.values a.queue = lists.values s.queue ++ [v] := by
  have hFront : (s.threads t).published = some n := by
    rw [hPc]
    rfl
  rw [hPc] at hKeeps
  obtain ⟨hAlone, hValue⟩ := hKeeps n rfl
  have hLimbo := h.mem_limbo hFront
  have hApart : m ∉ [n] := by
    intro hSame
    rw [← List.mem_singleton.mp hSame] at hLimbo
    exact (h.limbo_apart hLimbo).1 hMem
  obtain ⟨before, hBefore⟩ := h.list.eq_concat hMem hEnd
  have hNodup := h.main_nodup
  have hOld := h.list
  rw [hBefore] at hNodup hOld
  have hOutside : m ∉ before :=
    fun hIn => List.disjoint_of_nodup_append hNodup hIn List.mem_cons_self
  have hBehind : Chain s.queue.next (some n) [n] none := ⟨rfl, hAlone⟩
  have hList := hOld.link hBehind hOutside hApart
  have hMain : lists'.main = lists.main ++ [n] := by
    have hNew := h'.list
    rw [QueueSystem.advance, hQueue, s.queue.storeNext_next] at hNew
    rw [hBefore]
    exact hNew.unique hList
  have hNotEmpty : lists.main ≠ [] := List.ne_nil_of_mem hMem
  rw [QueueLists.values, QueueLists.values, hMain, List.tail_append_of_ne_nil hNotEmpty, List.map_append,
    List.map_singleton, hData n (QueueLists.published_of_limbo hLimbo), hValue]
  congr 1
  apply List.map_congr_left
  intro k hk
  exact hData k (QueueLists.published_of_main (List.mem_of_mem_tail hk))

omit [DecidableEq Node] in
/-- Moving the head takes the first value. -/
theorem values_take {v : Value} {next : Node} (h : s.Shaped lists)
    (hPc : s.threads t = .tryDequeue (.moveHead s.queue.mHead next v))
    (hHead : s.queue.mHead.DummyNode = some n)
    (hQueue : a.queue = { s.queue with mHead := ⟨s.queue.mHead.UID + 1, some next⟩ })
    (h' : (s.advance t a).Shaped lists') : lists.values s.queue = v :: lists'.values a.queue := by
  have hSound := h.sound t
  rw [hPc] at hSound
  obtain ⟨_, hFollows, _, hRead⟩ := hSound
  have hNext := hFollows rfl n hHead
  obtain ⟨d, later, hMain, hd⟩ := h.main_eq
  cases hd.symm.trans hHead
  have hOld := h.list
  rw [hMain] at hOld
  have hRest := hOld.2
  rw [hNext] at hRest
  have hNew := h'.list
  rw [QueueSystem.advance, hQueue] at hNew
  obtain ⟨rest, hLater, _⟩ := hRest.eq_cons
  have hMain' : lists'.main = next :: rest := by
    rw [← hLater]
    exact hNew.unique hRest
  have hValue : s.queue.data next = v := hRead rfl
  rw [QueueLists.values, QueueLists.values, hMain, hMain', hLater, hQueue, ← hValue]
  rfl

end QueueSystem.Shaped

end Lists

section Runs

variable {mayRefuse : List Value → Prop}

/-- A run up to here is a run of an abstract queue: these points, and the values behind the dummy
node. -/
structure QueueSystem.Ordered [Fintype Thread] [DecidableEq Thread] (mayRefuse : List Value → Prop)
    (s : QueueSystem Thread Node Value) (lists : QueueLists Thread Node)
    (points : List (Thread × Point (FifoOp Value) (FifoResult Value))) : Prop where
  shaped : s.Shaped lists
  keeps : ∀ t, (s.threads t).Keeps s.queue
  linear : Points (FifoApply mayRefuse) (fun _ => .idle) [] points (fun t => (s.threads t).phase)
    (lists.values s.queue)
  observed : observed points = s.calls

variable [DecidableEq Thread] {s s' : QueueSystem Thread Node Value} {t : Thread}
  {a : QueueAdvance Node Value}

/-- A step changes the phase of its own thread only. -/
theorem QueueSystem.phase_advance (s : QueueSystem Thread Node Value) (t : Thread)
    (a : QueueAdvance Node Value) : (fun t' => ((s.advance t a).threads t').phase) =
      Function.update (fun t' => (s.threads t').phase) t a.pc.phase := by
  funext t'
  by_cases hSame : t' = t
  · subst hSame
    rw [s.advance_self, Function.update_self]
  · rw [s.advance_other a hSame, Function.update_of_ne hSame]

/-- And adds to the history what it shows outside. -/
theorem QueueSystem.calls_advance (s : QueueSystem Thread Node Value) (t : Thread)
    (a : QueueAdvance Node Value) :
    (s.advance t a).calls = s.calls ++ a.mark.toList.map fun mark => (t, mark.outer) := by
  rw [QueueSystem.calls, QueueSystem.calls, QueueSystem.advance, List.map_append, List.map_map]
  rfl

variable [Fintype Thread] {lists lists' : QueueLists Thread Node}
  {points : List (Thread × Point (FifoOp Value) (FifoResult Value))}

/-- A step of the code is a turn of the abstract queue. -/
theorem QueueSystem.Ordered.advance (h : s.Ordered mayRefuse lists points)
    (hShaped : (s.advance t a).Shaped lists') (hSelf : a.pc.Keeps a.queue)
    (hOthers : ∀ t', t' ≠ t → (s.threads t').Keeps a.queue)
    (hTurn : Turn mayRefuse (s.threads t).phase a.pc.phase a.mark (lists.values s.queue)
      (lists'.values a.queue)) : ∃ points', (s.advance t a).Ordered mayRefuse lists' points' := by
  obtain ⟨more, hMore, hObserved⟩ := hTurn.points (fun t => (s.threads t).phase) rfl
  refine ⟨points ++ more, hShaped, ?_, ?_, ?_⟩
  · intro t'
    by_cases hSame : t' = t
    · subst hSame
      rw [s.advance_self]
      exact hSelf
    · rw [s.advance_other a hSame]
      exact hOthers t' hSame
  · rw [s.phase_advance]
    exact points_append.mpr ⟨_, _, h.linear, hMore⟩
  · rw [observed_append, h.observed, hObserved, s.calls_advance]

variable [DecidableEq Node]

/-- A step of one thread in its code. -/
theorem QueueSystem.Ordered.run {fresh : Option Node} (h : s.Ordered mayRefuse lists points)
    (hStep : (s.threads t).step s.queue fresh = some a)
    (hHead : s.queue.mHead.UID ≤ a.queue.mHead.UID) (hTail : s.queue.mTail.UID ≤ a.queue.mTail.UID)
    (hListed : ∀ v n snapshotTail m, s.threads t = .enqueue v (.link n snapshotTail (some m)) →
      s.queue.next m = none → s.queue.Reaches m)
    (hRefuse : s.threads t = .tryDequeue .decrementUsedSize → s.queue.mUsedSize - 1 < 0 →
      mayRefuse (lists.values s.queue)) :
    ∃ lists' points', (s.advance t a).Ordered mayRefuse lists' points' := by
  have hShaped := h.shaped
  obtain ⟨lists', hShaped', _, hData⟩ := hShaped.run hStep hHead hTail
  obtain ⟨hSound, hMoves⟩ := hShaped.moves hStep
  have hAlive : a.pc ≠ .crashed := by
    intro hCrashed
    rw [hCrashed] at hSound
    exact hSound
  have hMain : ∀ v n snapshotTail m, s.threads t = .enqueue v (.link n snapshotTail (some m)) →
      s.queue.next m = none → m ∈ lists.main :=
    fun v n snapshotTail m hPc hEnd => hShaped.mem_main (hListed v n snapshotTail m hPc hEnd)
  refine ⟨lists', h.advance hShaped' ?_ ?_ ?_⟩
  · have hKeeps := h.keeps t
    have hRelies := hShaped.sound t
    cases hPc : s.threads t with
    | idle | crashed =>
        rw [hPc] at hStep
        cases hStep
    | enqueue v pc =>
        rw [hPc] at hStep hKeeps hRelies
        refine EnqueuePc.step_keeps hStep ?_ hKeeps
        rintro n rfl
        exact hRelies
    | tryDequeue pc =>
        rw [hPc] at hStep
        cases hStep
        exact pc.step_keeps
  · intro t' _
    exact hShaped.keeps_others hMoves hMain hData (h.keeps t')
  · cases hPc : s.threads t with
    | idle | crashed =>
        rw [hPc] at hStep
        cases hStep
    | enqueue v pc =>
        have hKept := hShaped.values_keep hShaped' hMoves hData
        rw [hPc] at hStep hKept
        apply EnqueuePc.turn hStep hAlive
        · rintro n snapshotTail m rfl hEnd
          refine hShaped.values_link hPc ?_ hShaped' hData hEnd (hMain v n snapshotTail m hPc hEnd)
            (h.keeps t)
          simp only [QueuePc.step, EnqueuePc.step, deref, if_pos hEnd] at hStep
          cases hStep
          rfl
        · intro hNoLink
          apply hKept
          · intro v' n snapshotTail m hSame
            cases hSame
            exact hNoLink n snapshotTail m rfl
          · simp
    | tryDequeue pc =>
        have hKept := hShaped.values_keep hShaped' hMoves hData
        rw [hPc] at hStep hKept
        cases hStep
        apply DequeuePc.turn hAlive
        · rintro rfl
          exact hRefuse hPc
        · rintro next v rfl
          obtain ⟨n, _, _, hDummy⟩ := hShaped.main_eq
          refine hShaped.values_take hPc hDummy ?_ hShaped'
          simp [DequeuePc.step, deref, hDummy]
        · intro hNoTake
          apply hKept
          · simp
          · intro next v hSame
            cases hSame
            exact hNoTake next v rfl

/-- A thread that links its node links it behind a node that `mHead` still leads to. -/
def QueueSystem.LinksInside (s : QueueSystem Thread Node Value)
    (action : QueueAction Thread Node Value) : Prop :=
  ∀ t fresh v n snapshotTail m, action = .run t fresh →
    s.threads t = .enqueue v (.link n snapshotTail (some m)) → s.queue.next m = none → s.queue.Reaches m

/-- An attempt finds `mUsedSize` at zero only while the queue holds such values. -/
def QueueSystem.Refuses (mayRefuse : List Value → Prop) (s : QueueSystem Thread Node Value)
    (action : QueueAction Thread Node Value) : Prop :=
  ∀ t fresh, action = .run t fresh → s.threads t = .tryDequeue .decrementUsedSize →
    s.queue.mUsedSize - 1 < 0 → ∀ dummyNode later,
      Chain s.queue.next s.queue.mHead.DummyNode (dummyNode :: later) none →
        mayRefuse (later.map s.queue.data)

/-- The main list is the queue that the effects so far make, one step at a time. -/
theorem QueueSystem.Ordered.step {action : QueueAction Thread Node Value}
    (h : s.Ordered mayRefuse lists points) (hWrap : s.Unwrapped action) (hLinks : s.LinksInside action)
    (hRefuse : s.Refuses mayRefuse action) (hStep : s.step action = some s') :
    ∃ lists' points', s'.Ordered mayRefuse lists' points' := by
  cases action with
  | callEnqueue t v =>
      simp only [QueueSystem.step] at hStep
      split at hStep <;> cases hStep
      rename_i hIdle
      have hShaped := h.shaped.call (a := ⟨s.queue, .enqueue v .rent, some (.callEnqueue v)⟩) hIdle
        rfl rfl rfl True.intro
      refine ⟨lists, h.advance hShaped ?_ (fun t' _ => h.keeps t') ?_⟩
      · intro n hNone
        cases hNone
      · rw [hIdle]
        exact .call rfl _
  | callTryDequeue t =>
      simp only [QueueSystem.step] at hStep
      split at hStep <;> cases hStep
      rename_i hIdle
      have hShaped := h.shaped.call (a := ⟨s.queue, .tryDequeue .decrementUsedSize, some .callTryDequeue⟩)
        hIdle rfl rfl rfl True.intro
      refine ⟨lists, h.advance hShaped trivial (fun t' _ => h.keeps t') ?_⟩
      rw [hIdle]
      exact .call rfl _
  | run t fresh =>
      obtain ⟨hHead, hTail⟩ := hWrap s' hStep
      obtain ⟨a, hRun, rfl⟩ := Option.map_eq_some_iff.mp hStep
      refine h.run hRun hHead hTail ?_ ?_
      · intro v n snapshotTail m
        exact hLinks t fresh v n snapshotTail m rfl
      · intro hPc hUnder
        obtain ⟨dummyNode, later, hMain, _⟩ := h.shaped.main_eq
        have hList := h.shaped.list
        rw [hMain] at hList
        rw [QueueLists.values, hMain]
        exact hRefuse t fresh rfl hPc hUnder dummyNode later hList

/-- The fresh queue is empty. -/
theorem QueueSystem.start_ordered (dummyNode : Node) (nodes : Node → QueueNode Node Value) :
    (QueueSystem.start dummyNode nodes : QueueSystem Thread Node Value).Ordered mayRefuse
      ⟨[dummyNode], fun _ => [], fun _ => 0⟩ [] where
  shaped := QueueSystem.start_shaped dummyNode nodes
  keeps _ := True.intro
  linear := .nil _ _
  observed := rfl

/-- With every node linked at its place, any run is linearizable, at the exchanges. -/
theorem QueueSystem.linearizable_of_reachable (dummyNode : Node) (nodes : Node → QueueNode Node Value)
    (h : Reachable (Takes QueueSystem.step)
      (fun s action => s.Unwrapped action ∧ s.LinksInside action ∧ s.Refuses mayRefuse action)
      (QueueSystem.start dummyNode nodes) s) : Linearizable (FifoApply mayRefuse) [] s.calls := by
  have hOrdered : ∃ lists points, s.Ordered mayRefuse lists points := by
    apply h.invariant ⟨_, _, QueueSystem.start_ordered dummyNode nodes⟩
    intro s s' action _ hInv hGuard hStep
    obtain ⟨lists, points, hOrdered⟩ := hInv
    exact hOrdered.step hGuard.1 hGuard.2.1 hGuard.2.2 hStep
  obtain ⟨lists, points, hOrdered⟩ := hOrdered
  exact ⟨points, _, _, hOrdered.linear, hOrdered.observed⟩

variable [DecidableEq Value]

/-- Of two values that are passed once each: if the `Enqueue` of the first returns before that of the
second is called, then no `TryDequeue` that returns the second returns before the one that returns the
first is called. -/
def QueueSystem.InOrder (s : QueueSystem Thread Node Value) : Prop :=
  ∀ a b t₁ t₂ t₃ t₄, (valuesOf QueueMark.passed s.history).count a ≤ 1 →
    (valuesOf QueueMark.passed s.history).count b ≤ 1 →
    [(t₁, .enqueued a), (t₂, .callEnqueue b)].Sublist s.history →
      ¬ [(t₃, .dequeued b), (t₄, .callTryDequeue), (t₄, .dequeued a)].Sublist s.history

omit [DecidableEq Node] in
/-- What comes out of a linearizable queue comes out in order. -/
theorem QueueSystem.inOrder_of_linearizable (h : Linearizable (FifoApply mayRefuse) [] s.calls) :
    s.InOrder := by
  intro a b t₁ t₂ t₃ t₄ hOnceA hOnceB hIn hOut
  rw [← s.calledOps_calls] at hOnceA hOnceB
  have hIn := hIn.map fun entry => (entry.1, entry.2.outer)
  have hOut := hOut.map fun entry => (entry.1, entry.2.outer)
  exact h.in_order hOnceA hOnceB hIn hOut

/-- In the runs in which no tag wraps around and no node is linked behind a node that has left the queue,
the queue is first in, first out, and what has completed is a run of an abstract queue whose `TryDequeue`
may fail. It fails on an empty queue only if `mUsedSize` is found at zero only then. -/
theorem QueueSystem.inOrder_of_reachable (dummyNode : Node) (nodes : Node → QueueNode Node Value) :
    (∀ s : QueueSystem Thread Node Value,
      Reachable (Takes QueueSystem.step) (fun s action => s.Unwrapped action ∧ s.LinksInside action)
        (QueueSystem.start dummyNode nodes) s →
      s.InOrder ∧ Linearizable (FifoApply fun _ => True) [] s.calls) ∧
    ∀ s : QueueSystem Thread Node Value,
      Reachable (Takes QueueSystem.step)
        (fun s action => s.Unwrapped action ∧ s.LinksInside action ∧ s.Refuses (· = []) action)
        (QueueSystem.start dummyNode nodes) s →
      Linearizable (FifoApply (· = [])) [] s.calls := by
  constructor
  · intro s h
    have hFree : Reachable (Takes QueueSystem.step) (fun s action => s.Unwrapped action ∧
        s.LinksInside action ∧ s.Refuses (fun _ => True) action) (QueueSystem.start dummyNode nodes) s :=
      h.mono fun hGuard => ⟨hGuard.1, hGuard.2, fun _ _ _ _ _ _ _ _ => trivial⟩
    have hLinear := QueueSystem.linearizable_of_reachable dummyNode nodes hFree
    exact ⟨QueueSystem.inOrder_of_linearizable hLinear, hLinear⟩
  · intro s h
    exact QueueSystem.linearizable_of_reachable dummyNode nodes h

end Runs

section Schedules

open QueueAction

/-- A test of the guards: links are made behind the dummy node or the one after it, and an attempt is
refused when the dummy node is alone. -/
def QueueSystem.linksNear (s : QueueSystem (Fin 3) Nat Nat)
    (action : QueueAction (Fin 3) Nat Nat) : Bool :=
  s.unwrapped action && match action with
    | .run t _ => match s.threads t with
      | .enqueue _ (.link _ _ (some m)) => s.queue.next m ≠ none || s.queue.mHead.DummyNode = some m ||
          s.queue.mHead.DummyNode.bind s.queue.next = some m
      | .tryDequeue .decrementUsedSize => 0 ≤ s.queue.mUsedSize - 1 ||
          s.queue.mHead.DummyNode.bind s.queue.next = none
      | _ => true
    | _ => true

/-- The test that runs evaluate implies all three guards. -/
theorem QueueSystem.guards_of_test {s : QueueSystem (Fin 3) Nat Nat}
    {action : QueueAction (Fin 3) Nat Nat} (h : s.linksNear action = true) :
    s.Unwrapped action ∧ s.LinksInside action ∧ s.Refuses (· = []) action := by
  unfold QueueSystem.linksNear at h
  obtain ⟨hWrap, hNear⟩ := Bool.and_eq_true_iff.mp h
  refine ⟨QueueSystem.unwrapped_of_test hWrap, ?_, ?_⟩
  · rintro t fresh v n snapshotTail m rfl hPc hEnd
    simp only [hPc, hEnd, Bool.or_eq_true, decide_eq_true_eq, ne_eq, not_true_eq_false, false_or] at hNear
    rcases hNear with hFirst | hSecond
    · exact ⟨[m], ⟨hFirst, hEnd⟩, List.mem_singleton_self m⟩
    · obtain ⟨d, hHead, hNext⟩ := Option.bind_eq_some_iff.mp hSecond
      refine ⟨[d, m], ⟨hHead, hNext, hEnd⟩, ?_⟩
      exact List.mem_cons_of_mem d (List.mem_singleton_self m)
  · rintro t fresh rfl hPc hUnder dummyNode later hList
    simp only [hPc, hList.1, Option.bind_some, Bool.or_eq_true, decide_eq_true_eq] at hNear
    have hLater := hList.2
    rw [hNear.resolve_left (by omega)] at hLater
    cases later with
    | nil => rfl
    | cons n later => cases hLater.1

/-- Two threads enqueue, a third empties the queue and asks once more. -/
private def inTurn : List (QueueAction (Fin 3) Nat Nat) :=
  enqueues 0 1 1 9 ++ enqueues 1 2 2 9 ++ dequeues 2 11 ++ dequeues 2 11 ++ dequeues 2 2

/-- Three threads, two values, taken in order. -/
theorem QueueSystem.inOrder_of_reachable_inTurn : ∃ s : QueueSystem (Fin 3) Nat Nat,
    valuesOf QueueMark.taken s.history = [1, 2] ∧ s.InOrder ∧
      Linearizable (FifoApply (· = [])) [] s.calls := by
  have hRun : (exec (checked QueueSystem.linksNear QueueSystem.step)
      (QueueSystem.start 0 fun _ => ⟨none, 0⟩) inTurn).map (fun s =>
        decide (valuesOf QueueMark.taken s.history = [1, 2])) = some true := by
    decide +kernel
  obtain ⟨s, hExec, hEnd⟩ := Option.map_eq_some_iff.mp hRun
  have hReachable := reachable_of_checked QueueSystem.guards_of_test hExec
  obtain ⟨hOrder, hLinear⟩ :=
    @QueueSystem.inOrder_of_reachable (Fin 3) Nat Nat _ _ _ _ 0 fun _ => ⟨none, 0⟩
  exact ⟨s, of_decide_eq_true hEnd,
    (hOrder s (hReachable.mono fun hGuard => ⟨hGuard.1, hGuard.2.1⟩)).1, hLinear s hReachable⟩

/-- The first thread reads the tail and sleeps. Its node is linked behind that node after the node has
left the queue, and is on its way back in by the second thread; the value 3 overtakes the value 1. -/
private def overtake : List (QueueAction (Fin 3) Nat Nat) :=
  enqueues 0 1 1 6 ++ enqueues 2 9 2 9 ++ dequeues 2 11 ++ enqueues 1 2 0 2 ++ runs 0 3 ++
    enqueues 2 3 3 9 ++ dequeues 2 11 ++ runs 1 7 ++ dequeues 2 14 ++ dequeues 2 11

/-- A node linked behind a recycled one is lost with its value. -/
theorem QueueSystem.not_inOrder : ¬ ∀ s : QueueSystem (Fin 3) Nat Nat,
    Reachable (Takes QueueSystem.step) QueueSystem.Unwrapped
      (QueueSystem.start 0 fun _ => ⟨none, 0⟩) s → s.InOrder := by
  intro hAll
  have hRun : (exec (checked QueueSystem.unwrapped QueueSystem.step)
      (QueueSystem.start 0 fun _ => ⟨none, 0⟩) overtake).map (fun s => s.history) = some
        [(0, .callEnqueue 1), (2, .callEnqueue 9), (2, .enqueued 9), (2, .callTryDequeue),
          (2, .dequeued 9), (1, .callEnqueue 2), (0, .enqueued 1), (2, .callEnqueue 3), (2, .enqueued 3),
          (2, .callTryDequeue), (2, .dequeued 3), (1, .enqueued 2), (2, .callTryDequeue),
          (2, .dequeued 2), (2, .callTryDequeue), (2, .dequeued 1)] := by
    decide +kernel
  obtain ⟨s, hExec, hHistory⟩ := Option.map_eq_some_iff.mp hRun
  have hOrder := hAll s (reachable_of_checked QueueSystem.unwrapped_of_test hExec) 1 3 0 2 2 2
  rw [hHistory] at hOrder
  exact hOrder (by decide) (by decide) (by decide) (by decide)

end Schedules

end NfNetwork.Collections
