import NfNetwork.Machinery.Chain
import NfNetwork.Machinery.Crew
import NfNetwork.Collections.LockFreeStack
import Mathlib.Tactic.Abel

/-! The nodes of a stack that threads are changing. Every rented node is in the list
that `mHead` leads to or in the hands of one thread. What a popper read may be out of
date; its exchange is right if it succeeds only while its snapshot is still good. -/
namespace NfNetwork.Collections

open Machinery

variable {Thread Node Value : Type}

section Kinds

/-- The node that a thread is about to link, or has taken and not given back. -/
def StackPc.hand : StackPc Node Value → Multiset Node
  | .push _ (.storeData n) | .push _ (.loadUID n) | .push _ (.loadNode n _) | .push _ (.storeNext n _)
  | .push _ (.compareExchange n _) | .tryPop (.loadData n) | .tryPop (.giveBack n _) => {n}
  | _ => 0

/-- Past the decrement of `mUsedSize` that lets a thread take a node. -/
def StackPc.admitted : StackPc Node Value → Bool
  | .tryPop .loadUID | .tryPop (.loadNode _) | .tryPop (.loadNext _)
  | .tryPop (.compareExchange _ _) => true
  | _ => false

/-- Past the decrement of `mUsedSize` that finds no node. -/
def StackPc.refused : StackPc Node Value → Bool
  | .tryPop .incrementUsedSize => true
  | _ => false

/-- Past the push that `mUsedSize` does not count yet. -/
def StackPc.pushed : StackPc Node Value → Bool
  | .push _ .incrementUsedSize => true
  | _ => false

/-- Where a thread is in its operation. -/
def StackPc.phase (stack : LockFreeStack Node Value) : StackPc Node Value → StackPhase Value
  | .idle | .crashed => .idle
  | .push inputData .incrementUsedSize => .hasPushed inputData
  | .push inputData _ => .pushing inputData
  | .tryPop (.loadData n) => .hasPopped (stack.data n)
  | .tryPop (.giveBack _ outputData) | .tryPop (.leave outputData) => .hasPopped outputData
  | .tryPop _ => .popping

/-- What a thread has written to its node, and that a popper's snapshot is not null. -/
def StackPc.Ready (stack : LockFreeStack Node Value) : StackPc Node Value → Prop
  | .push inputData (.loadUID n) | .push inputData (.loadNode n _)
  | .push inputData (.storeNext n _) => stack.data n = inputData
  | .push inputData (.compareExchange n snapshotHead) =>
      stack.data n = inputData ∧ stack.next n = snapshotHead.Node
  | .tryPop (.loadNext snapshotHead) | .tryPop (.compareExchange snapshotHead _) =>
      snapshotHead.Node ≠ none
  | .crashed => False
  | _ => True

/-- A popper whose exchange will succeed has read the `Next` of the first node. -/
def StackPc.Reads (stack : LockFreeStack Node Value) : StackPc Node Value → Prop
  | .tryPop (.compareExchange snapshotHead next) =>
      stack.mHead = snapshotHead → ∀ n, snapshotHead.Node = some n → next = stack.next n
  | _ => True

end Kinds

section Exchanges

variable [DecidableEq Node]

/-- About to take the first node. -/
def StackPc.takes (stack : LockFreeStack Node Value) : StackPc Node Value → Bool
  | .tryPop (.compareExchange snapshotHead _) => stack.mHead = snapshotHead
  | _ => false

/-- About to put its node in front of the others. -/
def StackPc.pushes (stack : LockFreeStack Node Value) : StackPc Node Value → Bool
  | .push _ (.compareExchange _ snapshotHead) => stack.mHead = snapshotHead
  | _ => false

end Exchanges

/-- The nodes that `mHead` leads to. -/
def LockFreeStack.Linked (stack : LockFreeStack Node Value) (list : List Node) : Prop :=
  Chain stack.next stack.mHead.Node list none

/-- The nodes in the hands of threads. -/
def StackSystem.hands [Fintype Thread] (s : StackSystem Thread Node Value) : Multiset Node :=
  crewTotal StackPc.hand s.threads

section Counters

variable [Fintype Thread]

/-- The counter against the list and the threads between the two. -/
structure StackSystem.Counted (s : StackSystem Thread Node Value) (length : Nat) : Prop where
  usedSize : (length : Int) = s.stack.mUsedSize + crewCount StackPc.admitted s.threads +
    crewCount StackPc.refused s.threads + crewCount StackPc.pushed s.threads
  enough : 0 ≤ s.stack.mUsedSize + crewCount StackPc.refused s.threads

variable {s : StackSystem Thread Node Value} {length length' : Nat} {t : Thread}

/-- The list holds a node for every admitted thread. -/
theorem StackSystem.Counted.length_pos (h : s.Counted length)
    (hAdmitted : (s.threads t).admitted = true) : 0 < length := by
  have hSize := h.usedSize
  have hEnough := h.enough
  have hThread := crewCount_pos hAdmitted
  omega

theorem StackSystem.Counted.usedSize_le (h : s.Counted length) : s.stack.mUsedSize ≤ length := by
  have hSize := h.usedSize
  omega

variable [DecidableEq Thread]

/-- A call changes no count. -/
theorem StackSystem.Counted.call {pc : StackPc Node Value} {mark : Option (StackMark Value)}
    (h : s.Counted length) (hIdle : s.threads t = .idle)
    (hEntry : pc = .tryPop .decrementUsedSize ∨ ∃ v, pc = .push v .checkCapacity) :
    (s.advance t ⟨s.stack, pc, mark⟩).Counted length := by
  have hAdmitted := crewCount_update StackPc.admitted s.threads t pc
  have hRefused := crewCount_update StackPc.refused s.threads t pc
  have hPushed := crewCount_update StackPc.pushed s.threads t pc
  obtain ⟨hSize, hEnough⟩ := h
  rw [StackSystem.advance]
  obtain rfl | ⟨v, rfl⟩ := hEntry
  all_goals
    simp only [hIdle, StackPc.admitted, StackPc.refused, StackPc.pushed, Bool.toNat_false]
      at hAdmitted hRefused hPushed
    constructor <;> dsimp only <;> omega

variable [DecidableEq Node] {a : StackAdvance Node Value} {fresh : Option Node}

attribute [local simp] StackPc.admitted StackPc.refused StackPc.pushed StackPc.takes StackPc.pushes
  LockFreeStack.storeNext LockFreeStack.storeData

/-- Every step that does not crash moves its thread from one count to another. -/
theorem StackSystem.Counted.run (h : s.Counted length)
    (hStep : (s.threads t).step s.stack fresh = some a) (hAlive : a.pc ≠ .crashed)
    (hLength : length' + ((s.threads t).takes s.stack).toNat =
      length + ((s.threads t).pushes s.stack).toNat) : (s.advance t a).Counted length' := by
  have hAdmitted := crewCount_update StackPc.admitted s.threads t a.pc
  have hRefused := crewCount_update StackPc.refused s.threads t a.pc
  have hPushed := crewCount_update StackPc.pushed s.threads t a.pc
  obtain ⟨hSize, hEnough⟩ := h
  rw [StackSystem.advance]
  cases hPc : s.threads t with
  | idle | crashed =>
      rw [hPc] at hStep
      cases hStep
  | push inputData pc =>
      rw [hPc] at hStep hAdmitted hRefused hPushed hLength
      cases pc
      all_goals simp only [StackPc.step, PushPc.step] at hStep
      all_goals repeat' split at hStep
      all_goals cases hStep
      all_goals simp_all
      all_goals constructor
      all_goals dsimp only
      all_goals omega
  | tryPop pc =>
      rw [hPc] at hStep hAdmitted hRefused hPushed hLength
      cases pc
      all_goals simp only [StackPc.step, PopPc.step] at hStep
      all_goals repeat' split at hStep
      all_goals cases hStep
      all_goals simp_all
      all_goals constructor
      all_goals dsimp only
      all_goals omega

end Counters

section OwnSteps

variable [DecidableEq Node] {stack : LockFreeStack Node Value} {pc : StackPc Node Value}
  {a : StackAdvance Node Value} {fresh : Option Node}

/-- What a step does to the list and to the node in the thread's hands. -/
inductive StackPc.Moves (stack : LockFreeStack Node Value) :
    StackPc Node Value → StackAdvance Node Value → Prop where
  | quiet {pc : StackPc Node Value} {a : StackAdvance Node Value}
      (hHead : a.stack.mHead = stack.mHead) (hNodes : a.stack.nodes = stack.nodes)
      (hRented : a.stack.rented = stack.rented) (hHand : a.pc.hand = pc.hand)
      (hTakes : pc.takes stack = false) (hPushes : pc.pushes stack = false)
      (hMark : ∀ m ∈ a.mark, m.noEffect = true) : Moves stack pc a
  | rent {inputData : Value} {n : Node} (hFresh : n ∉ stack.rented) : Moves stack
      (.push inputData .rent)
      ⟨{ stack with rented := n ::ₘ stack.rented }, .push inputData (.storeData n), none⟩
  | storeData {inputData : Value} {n : Node} : Moves stack (.push inputData (.storeData n))
      ⟨stack.storeData n inputData, .push inputData (.loadUID n), none⟩
  | storeNext {inputData : Value} {n : Node} {snapshotHead : StackIndexer Node} : Moves stack
      (.push inputData (.storeNext n snapshotHead))
      ⟨stack.storeNext n snapshotHead.Node, .push inputData (.compareExchange n snapshotHead), none⟩
  | push {inputData : Value} {n : Node} : Moves stack
      (.push inputData (.compareExchange n stack.mHead))
      ⟨{ stack with mHead := ⟨stack.mHead.UID + 1, some n⟩ }, .push inputData .incrementUsedSize,
        some (.push inputData)⟩
  | pop {n : Node} {next : Option Node} (hHead : stack.mHead.Node = some n) : Moves stack
      (.tryPop (.compareExchange stack.mHead next))
      ⟨{ stack with mHead := ⟨stack.mHead.UID + 1, next⟩ }, .tryPop (.loadData n),
        some (.pop (stack.data n))⟩
  | giveBack {n : Node} {outputData : Value} : Moves stack (.tryPop (.giveBack n outputData))
      ⟨{ stack with rented := stack.rented.erase n }, .tryPop (.leave outputData), none⟩

/-- No step dereferences a null pointer. -/
theorem StackPc.step_alive (h : pc.Ready stack)
    (hHead : pc.admitted = true → stack.mHead.Node ≠ none)
    (hStep : pc.step stack fresh = some a) : a.pc ≠ .crashed := by
  cases pc with
  | idle | crashed => cases hStep
  | push inputData pc =>
      cases pc
      all_goals simp only [StackPc.step, PushPc.step] at hStep
      all_goals repeat' split at hStep
      all_goals cases hStep
      all_goals simp
  | tryPop pc =>
      cases pc with
      | loadNode uid =>
          obtain ⟨n, hn⟩ := Option.ne_none_iff_exists'.mp (hHead rfl)
          simp only [StackPc.step, PopPc.step, hn] at hStep
          cases hStep
          simp
      | loadNext snapshotHead =>
          obtain ⟨n, hn⟩ := Option.ne_none_iff_exists'.mp h
          simp only [StackPc.step, PopPc.step, hn] at hStep
          cases hStep
          simp
      | compareExchange snapshotHead next =>
          obtain ⟨n, hn⟩ := Option.ne_none_iff_exists'.mp h
          simp only [StackPc.step, PopPc.step, hn] at hStep
          split at hStep <;> cases hStep <;> simp
      | _ =>
          cases hStep
          simp [PopPc.step]

theorem StackPc.moves (hStep : pc.step stack fresh = some a) (hAlive : a.pc ≠ .crashed) :
    pc.Moves stack a := by
  cases pc with
  | idle | crashed => cases hStep
  | push inputData pc =>
      cases pc with
      | checkCapacity =>
          simp only [StackPc.step, PushPc.step] at hStep
          split at hStep <;> cases hStep <;> exact .quiet rfl rfl rfl rfl rfl rfl (by simp [StackMark.noEffect])
      | rent =>
          simp only [StackPc.step, PushPc.step] at hStep
          split at hStep
          · cases hStep
            exact .quiet rfl rfl rfl rfl rfl rfl (by simp [StackMark.noEffect])
          · split at hStep <;> cases hStep
            rename_i hFresh
            exact .rent hFresh
      | storeData n =>
          cases hStep
          exact .storeData
      | storeNext n snapshotHead =>
          cases hStep
          exact .storeNext
      | compareExchange n snapshotHead =>
          simp only [StackPc.step, PushPc.step] at hStep
          split at hStep
          · rename_i head hError
            have hNot := (LockFreeStack.compareExchangeHead_eq_error.mp hError).1
            cases hStep
            exact .quiet rfl rfl rfl rfl rfl (decide_eq_false hNot) (by simp)
          · rename_i stack' hOk
            obtain ⟨rfl, rfl⟩ := LockFreeStack.compareExchangeHead_eq_ok.mp hOk
            cases hStep
            exact .push
      | _ =>
          cases hStep
          exact .quiet rfl rfl rfl rfl rfl rfl (by simp [StackMark.noEffect])
  | tryPop pc =>
      cases pc with
      | decrementUsedSize =>
          cases hStep
          refine .quiet rfl rfl rfl ?_ rfl rfl (by simp [PopPc.step])
          simp only [PopPc.step]
          split <;> rfl
      | loadNode uid =>
          simp only [StackPc.step, PopPc.step] at hStep
          split at hStep <;> cases hStep
          · exact absurd rfl hAlive
          · exact .quiet rfl rfl rfl rfl rfl rfl (by simp)
      | loadNext snapshotHead =>
          simp only [StackPc.step, PopPc.step] at hStep
          split at hStep <;> cases hStep
          · exact absurd rfl hAlive
          · exact .quiet rfl rfl rfl rfl rfl rfl (by simp)
      | compareExchange snapshotHead next =>
          simp only [StackPc.step, PopPc.step] at hStep
          split at hStep
          · rename_i head hError
            have hNot := (LockFreeStack.compareExchangeHead_eq_error.mp hError).1
            cases hStep
            exact .quiet rfl rfl rfl rfl (decide_eq_false hNot) rfl (by simp)
          · rename_i stack' hOk
            obtain ⟨rfl, rfl⟩ := LockFreeStack.compareExchangeHead_eq_ok.mp hOk
            cases hNode : stack.mHead.Node with
            | none =>
                rw [hNode] at hStep
                cases hStep
                exact absurd rfl hAlive
            | some n =>
                rw [hNode] at hStep
                cases hStep
                exact .pop hNode
      | giveBack n outputData =>
          cases hStep
          exact .giveBack
      | _ =>
          cases hStep
          exact .quiet rfl rfl rfl rfl rfl rfl (by simp [PopPc.step, StackMark.noEffect])

/-- What a thread has after its own step. -/
theorem StackPc.step_ready (h : pc.Ready stack)
    (hHead : pc.admitted = true → stack.mHead.Node ≠ none)
    (hStep : pc.step stack fresh = some a) : a.pc.Ready a.stack := by
  have hAlive := StackPc.step_alive h hHead hStep
  cases pc with
  | idle | crashed => cases hStep
  | push inputData pc =>
      cases pc with
      | storeData n =>
          cases hStep
          exact (congrFun (stack.storeData_data n inputData) n).trans (Function.update_self ..)
      | storeNext n snapshotHead =>
          cases hStep
          refine ⟨(congrFun (stack.storeNext_data n _) n).trans h, ?_⟩
          exact (congrFun (stack.storeNext_next n _) n).trans (Function.update_self ..)
      | compareExchange n snapshotHead =>
          simp only [StackPc.step, PushPc.step] at hStep
          split at hStep <;> cases hStep
          · exact h.1
          · trivial
      | loadUID n | loadNode n uid =>
          cases hStep
          exact h
      | _ =>
          simp only [StackPc.step, PushPc.step] at hStep
          repeat' split at hStep
          all_goals cases hStep
          all_goals trivial
  | tryPop pc =>
      cases pc with
      | decrementUsedSize =>
          cases hStep
          simp only [PopPc.step]
          split <;> trivial
      | loadNode uid =>
          simp only [StackPc.step, PopPc.step] at hStep
          split at hStep <;> cases hStep
          · exact absurd rfl hAlive
          · exact Option.some_ne_none _
      | loadNext snapshotHead =>
          simp only [StackPc.step, PopPc.step] at hStep
          split at hStep <;> cases hStep
          · exact absurd rfl hAlive
          · exact h
      | compareExchange snapshotHead next =>
          simp only [StackPc.step, PopPc.step] at hStep
          split at hStep
          · rename_i head hError
            rw [(LockFreeStack.compareExchangeHead_eq_error.mp hError).2] at hStep
            cases hStep
            exact hHead rfl
          · split at hStep <;> cases hStep
            · exact absurd rfl hAlive
            · trivial
      | _ =>
          cases hStep
          trivial

/-- A step is a turn of its thread's operation. -/
theorem StackPc.step_turn (hStep : pc.step stack fresh = some a) (hAlive : a.pc ≠ .crashed) :
    StackTurn (pc.phase stack) a.mark (a.pc.phase a.stack) := by
  cases pc with
  | idle | crashed => cases hStep
  | push inputData pc =>
      cases pc with
      | checkCapacity =>
          simp only [StackPc.step, PushPc.step] at hStep
          split at hStep <;> cases hStep
          · exact .full
          · exact .stay
      | rent =>
          simp only [StackPc.step, PushPc.step] at hStep
          split at hStep
          · cases hStep
            exact .threw
          · split at hStep <;> cases hStep
            exact .stay
      | compareExchange n snapshotHead =>
          simp only [StackPc.step, PushPc.step] at hStep
          split at hStep <;> cases hStep
          · exact .stay
          · exact .push
      | incrementUsedSize =>
          cases hStep
          exact .pushed
      | _ =>
          cases hStep
          exact .stay
  | tryPop pc =>
      cases pc with
      | decrementUsedSize =>
          cases hStep
          simp only [PopPc.step]
          split <;> exact .stay
      | incrementUsedSize =>
          cases hStep
          exact .empty
      | loadNode uid | loadNext snapshotHead =>
          simp only [StackPc.step, PopPc.step] at hStep
          split at hStep <;> cases hStep
          · exact absurd rfl hAlive
          · exact .stay
      | compareExchange snapshotHead next =>
          simp only [StackPc.step, PopPc.step] at hStep
          split at hStep
          · cases hStep
            exact .stay
          · rename_i stack' hOk
            obtain ⟨rfl, rfl⟩ := LockFreeStack.compareExchangeHead_eq_ok.mp hOk
            split at hStep <;> cases hStep
            · exact absurd rfl hAlive
            · exact .pop
      | leave outputData =>
          cases hStep
          exact .popped
      | _ =>
          cases hStep
          exact .stay

end OwnSteps

end NfNetwork.Collections
