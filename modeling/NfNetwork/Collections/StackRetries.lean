import NfNetwork.Collections.LockFreeStack
import NfNetwork.Machinery.Retry
import Mathlib.Data.Fintype.Card

/-! `LockFreeStack` makes progress: a `Push` or `TryPop` goes round its loop again only if another
thread has replaced `mHead`, so no schedule keeps the threads busy without a call coming to its
end. -/
namespace NfNetwork.Collections

open Machinery

variable {Thread Node Value : Type} [DecidableEq Node]

/-- The steps left of a `Push` that nobody interferes with. -/
def PushPc.left : PushPc Node → Nat
  | .checkCapacity => 8
  | .rent => 7
  | .storeData _ => 6
  | .loadUID _ => 5
  | .loadNode _ _ => 4
  | .storeNext _ _ => 3
  | .compareExchange _ _ => 2
  | .incrementUsedSize => 1

def PopPc.left : PopPc Node Value → Nat
  | .decrementUsedSize => 8
  | .incrementUsedSize => 1
  | .loadUID => 7
  | .loadNode _ => 6
  | .loadNext _ => 5
  | .compareExchange _ _ => 4
  | .loadData _ => 3
  | .giveBack _ _ => 2
  | .leave _ => 1

/-- The places from which the compare-exchange may still come. -/
def PushPc.replaces : PushPc Node → Bool
  | .incrementUsedSize => false
  | _ => true

def PopPc.replaces : PopPc Node Value → Bool
  | .decrementUsedSize | .loadUID | .loadNode _ | .loadNext _ | .compareExchange _ _ => true
  | _ => false

/-- The part of the snapshot that has been loaded is not in `mHead` any more. -/
def PushPc.stale (head : StackIndexer Node) : PushPc Node → Bool
  | .loadNode _ uid => uid ≠ head.UID
  | .storeNext _ snapshotHead | .compareExchange _ snapshotHead => snapshotHead ≠ head
  | _ => false

def PopPc.stale (head : StackIndexer Node) : PopPc Node Value → Bool
  | .loadNode uid => uid ≠ head.UID
  | .loadNext snapshotHead | .compareExchange snapshotHead _ => snapshotHead ≠ head
  | _ => false

/-- `Push` and `TryPop` as operations that retry on `mHead`. -/
def stackRetrying : Retrying (StackIndexer Node) (StackPc Node Value) where
  left
    | .push _ pc => pc.left
    | .tryPop pc => pc.left
    | .idle | .crashed => 0
  replaces
    | .push _ pc => pc.replaces
    | .tryPop pc => pc.replaces
    | .idle | .crashed => false
  stale head
    | .push _ pc => pc.stale head
    | .tryPop pc => pc.stale head
    | .idle | .crashed => false

section Steps

variable {stack : LockFreeStack Node Value} {others : Nat}

omit [DecidableEq Node] in
/-- A snapshot whose node is current is stale through its `UID`. -/
theorem StackIndexer.mk_eq_iff {head : StackIndexer Node} {uid : UInt64} :
    (⟨uid, head.Node⟩ : StackIndexer Node) = head ↔ uid = head.UID := by
  cases head
  simp

attribute [local simp] stackRetrying PushPc.left PushPc.replaces PushPc.stale PopPc.left
  PopPc.replaces PopPc.stale StackIndexer.mk_eq_iff

/-- A failed compare-exchange had a stale snapshot and takes a fresh one, a successful one pays
for what it makes stale, and every other step leaves `mHead` alone. -/
theorem PushPc.step_pays {inputData : Value} {fresh : Option Node} {pc : PushPc Node}
    {a : StackAdvance Node Value} (h : pc.step stack inputData fresh = some a) :
    stackRetrying.Pays 2 others stack.mHead (.push inputData pc) a.stack.mHead a.pc := by
  cases pc with
  | checkCapacity =>
      simp only [PushPc.step] at h
      split at h <;> cases h
      · exact .goesOn (by simp) id (fun _ => rfl)
      · exact .goesOn (by simp) id id
  | rent =>
      simp only [PushPc.step] at h
      repeat' split at h
      all_goals cases h
      all_goals exact .goesOn (by simp) id (fun _ => rfl)
  | loadUID newNode =>
      cases h
      exact .goesOn (by simp) (by simp) id
  | loadNode newNode uid =>
      cases h
      exact .goesOn (by simp) (by simp) id
  | compareExchange newNode snapshotHead =>
      simp only [PushPc.step] at h
      cases hExchange : stack.compareExchangeHead (some newNode) snapshotHead with
      | error head =>
          obtain ⟨hStale, rfl⟩ := LockFreeStack.compareExchangeHead_eq_error.mp hExchange
          simp only [hExchange] at h
          cases h
          exact .goesRound (by simp) (by simp [Ne.symm hStale]) (by simp) rfl
      | ok stack' =>
          obtain ⟨hHead, rfl⟩ := LockFreeStack.compareExchangeHead_eq_ok.mp hExchange
          simp only [hExchange] at h
          cases h
          exact .replacesCell (by simp) rfl rfl rfl
  | storeData _ | storeNext _ _ | incrementUsedSize =>
      cases h
      exact .goesOn (by simp) id id

theorem PopPc.step_pays (pc : PopPc Node Value) :
    stackRetrying.Pays 2 others stack.mHead (.tryPop pc) (pc.step stack).stack.mHead
      (pc.step stack).pc := by
  cases pc with
  | decrementUsedSize =>
      simp only [PopPc.step]
      split
      · exact .goesOn (by simp) id (fun _ => rfl)
      · exact .goesOn (by simp) id id
  | loadUID => exact .goesOn (by simp [PopPc.step]) (by simp [PopPc.step]) id
  | loadNode uid =>
      simp only [PopPc.step]
      cases hNode : stack.mHead.Node with
      | none => exact .goesOn (by simp) (by simp) (fun _ => rfl)
      | some n =>
          have hSnapshot : (⟨uid, some n⟩ : StackIndexer Node) = stack.mHead ↔ uid = stack.mHead.UID := by
            rw [← hNode]
            exact StackIndexer.mk_eq_iff
          exact .goesOn (by simp) (by simp [hSnapshot]) id
  | loadNext snapshotHead =>
      simp only [PopPc.step]
      split
      · exact .goesOn (by simp) (by simp) (fun _ => rfl)
      · exact .goesOn (by simp) id id
  | compareExchange snapshotHead next =>
      simp only [PopPc.step]
      cases hExchange : stack.compareExchangeHead next snapshotHead with
      | error head =>
          obtain ⟨hStale, rfl⟩ := LockFreeStack.compareExchangeHead_eq_error.mp hExchange
          exact .goesRound (by simp) (by simp [Ne.symm hStale]) (by simp) rfl
      | ok stack' =>
          obtain ⟨hHead, rfl⟩ := LockFreeStack.compareExchangeHead_eq_ok.mp hExchange
          cases hNode : snapshotHead.Node with
          | none => exact .replacesCell (by simp) rfl rfl rfl
          | some n => exact .replacesCell (by simp) rfl rfl rfl
  | incrementUsedSize | loadData _ | giveBack _ _ | leave _ =>
      exact .goesOn (by simp [PopPc.step]) id id

theorem StackPc.step_pays {pc : StackPc Node Value} {fresh : Option Node} {a : StackAdvance Node Value}
    (h : pc.step stack fresh = some a) :
    stackRetrying.Pays 2 others stack.mHead pc a.stack.mHead a.pc := by
  cases pc with
  | idle => cases h
  | push inputData pc => exact pc.step_pays h
  | tryPop pc =>
      cases h
      exact pc.step_pays
  | crashed => cases h

end Steps

def StackAction.calls : StackAction Thread Node Value → Bool
  | .callPush _ _ | .callTryPop _ => true
  | .run _ _ => false

namespace StackSystem

variable [DecidableEq Thread] [Fintype Thread] {s s' : StackSystem Thread Node Value}

/-- What all calls in progress may still cost. -/
def potential (s : StackSystem Thread Node Value) : Nat :=
  stackRetrying.potential 2 s.stack.mHead s.threads

theorem call_pays {t : Thread} {pc : StackPc Node Value} (hIdle : s.threads t = .idle)
    (hCost : stackRetrying.cost 2 (Fintype.card Thread - 1) s.stack.mHead pc =
      2 * (Fintype.card Thread - 1) + 8) :
    stackRetrying.potential 2 s.stack.mHead (Function.update s.threads t pc) + 1 ≤
      s.potential + (2 * Fintype.card Thread + 7) := by
  have hCard : 0 < Fintype.card Thread := Fintype.card_pos_iff.mpr ⟨t⟩
  rw [Retrying.potential_calls s.stack.mHead (by simp [hIdle, Retrying.cost, stackRetrying]), hCost,
    potential]
  omega

theorem step_pays {a : StackAction Thread Node Value} (h : s.step a = some s') :
    s'.potential + 1 ≤ s.potential + if a.calls then 2 * Fintype.card Thread + 7 else 0 := by
  cases a with
  | callPush t inputData =>
      simp only [step] at h
      split at h
      · rename_i hIdle
        cases h
        refine call_pays hIdle ?_
        rw [Retrying.cost_of_calls rfl rfl]
        exact Nat.add_comm 8 _
      · cases h
  | callTryPop t =>
      simp only [step] at h
      split at h
      · rename_i hIdle
        cases h
        refine call_pays hIdle ?_
        rw [Retrying.cost_of_calls rfl rfl]
        exact Nat.add_comm 8 _
      · cases h
  | run t fresh =>
      obtain ⟨a, hStep, rfl⟩ := Option.map_eq_some_iff.mp h
      exact Retrying.potential_pays (StackPc.step_pays hStep)

omit [DecidableEq Thread] in
theorem potential_idle (hIdle : ∀ t, s.threads t = .idle) : s.potential = 0 :=
  crewTotal_eq_zero fun t => by simp [hIdle t, Retrying.cost, stackRetrying]

/-- However the threads are scheduled, `n` of them take at most `2 n + 7` steps for each call,
its own included. -/
theorem length_le_of_calls {actions : List (StackAction Thread Node Value)}
    (hIdle : ∀ t, s.threads t = .idle) (hRun : exec step s actions = some s') :
    actions.length ≤ (2 * Fintype.card Thread + 7) * actions.countP StackAction.calls := by
  have hLength := length_le_of_pays potential step_pays hRun
  rw [potential_idle hIdle] at hLength
  omega

/-- `n` steps of one thread. -/
def goes (t : Thread) (n : Nat) (fresh : Option Node) : List (StackAction Thread Node Value) :=
  List.replicate n (.run t fresh)

/-- A `Push` is about to replace the head when another does, and goes round again; then a
`TryPop`. -/
def contendedRun : List (StackAction Bool (Fin 2) Nat) :=
  ([.callPush false 7] : List (StackAction Bool (Fin 2) Nat)) ++ goes false 6 (some 0) ++
    ([.callPush true 8] : List (StackAction Bool (Fin 2) Nat)) ++ goes true 8 (some 1) ++
    goes false 4 none ++ ([.callTryPop true] : List (StackAction Bool (Fin 2) Nat)) ++
    goes true 8 none

theorem length_le_of_calls_contended :
    contendedRun.length ≤
      (2 * Fintype.card Bool + 7) * contendedRun.countP StackAction.calls ∧
    contendedRun.length = 29 ∧ contendedRun.countP StackAction.calls = 3 := by
  have hRuns : (exec step (start 4 fun _ => ⟨none, 0⟩ : StackSystem Bool (Fin 2) Nat)
      contendedRun).isSome = true := by
    decide +kernel
  obtain ⟨s, hRun⟩ := Option.isSome_iff_exists.mp hRuns
  exact ⟨length_le_of_calls (fun _ => rfl) hRun, rfl, rfl⟩

end StackSystem

end NfNetwork.Collections
