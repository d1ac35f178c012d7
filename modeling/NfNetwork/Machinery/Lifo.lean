import Mathlib.Algebra.Order.Group.Multiset
import Mathlib.Tactic.Abel
import Mathlib.Tactic.Common

/-! The history of a stack that threads share. Every operation is called, takes effect
at once at some later point, and returns. The effects are those of an abstract stack. -/
namespace NfNetwork.Machinery

universe u v
variable {Thread : Type u} {Value : Type v}

inductive StackMark (Value : Type v) where
  | callPush (inputData : Value)
  | push (inputData : Value)
  | pushed (inputData : Value)
  | full (inputData : Value)
  | threw (inputData : Value)
  | callTryPop
  | pop (outputData : Value)
  | popped (outputData : Value)
  | empty
deriving DecidableEq

/-- A call or a return. -/
def StackMark.noEffect : StackMark Value → Bool
  | .push _ | .pop _ => false
  | _ => true

/-- The effects of this history leave an abstract stack with these values, the last one
in front. -/
inductive Lifo : List (Thread × StackMark Value) → List Value → Prop where
  | nil : Lifo [] []
  | push {history : List (Thread × StackMark Value)} {values : List Value} {t : Thread} {v : Value}
      (h : Lifo history values) : Lifo (history ++ [(t, .push v)]) (v :: values)
  | pop {history : List (Thread × StackMark Value)} {values : List Value} {t : Thread} {v : Value}
      (h : Lifo history (v :: values)) : Lifo (history ++ [(t, .pop v)]) values
  | other {history : List (Thread × StackMark Value)} {values : List Value} {t : Thread}
      {mark : StackMark Value} (h : Lifo history values) (hMark : mark.noEffect = true) :
      Lifo (history ++ [(t, mark)]) values

/-- Calls and returns leave the abstract stack alone. -/
theorem Lifo.others {history : List (Thread × StackMark Value)} {values : List Value} {t : Thread}
    {mark : Option (StackMark Value)} (h : Lifo history values)
    (hMark : ∀ m ∈ mark, m.noEffect = true) :
    Lifo (history ++ mark.toList.map (Prod.mk t)) values := by
  cases mark with
  | none => simpa using h
  | some m => exact h.other (hMark m rfl)

/-- Where a thread is in its operation. -/
inductive StackPhase (Value : Type v) where
  | idle
  | pushing (inputData : Value)
  | hasPushed (inputData : Value)
  | popping
  | hasPopped (outputData : Value)

/-- What a thread does next: an operation that returns a success takes effect once,
between its call and its return, with the value it was passed or returns; one that fails
takes no effect. -/
inductive StackTurn : StackPhase Value → Option (StackMark Value) → StackPhase Value → Prop where
  | stay {phase : StackPhase Value} : StackTurn phase none phase
  | callPush {v : Value} : StackTurn .idle (some (.callPush v)) (.pushing v)
  | push {v : Value} : StackTurn (.pushing v) (some (.push v)) (.hasPushed v)
  | pushed {v : Value} : StackTurn (.hasPushed v) (some (.pushed v)) .idle
  | full {v : Value} : StackTurn (.pushing v) (some (.full v)) .idle
  | threw {v : Value} : StackTurn (.pushing v) (some (.threw v)) .idle
  | callTryPop : StackTurn .idle (some .callTryPop) .popping
  | pop {v : Value} : StackTurn .popping (some (.pop v)) (.hasPopped v)
  | popped {v : Value} : StackTurn (.hasPopped v) (some (.popped v)) .idle
  | empty : StackTurn .popping (some .empty) .idle

/-- What one thread has done, turn by turn, and where that has left it. -/
inductive StackCalls : List (StackMark Value) → StackPhase Value → Prop where
  | nil : StackCalls [] .idle
  | turn {marks : List (StackMark Value)} {mark : Option (StackMark Value)}
      {phase phase' : StackPhase Value} (h : StackCalls marks phase)
      (hTurn : StackTurn phase mark phase') : StackCalls (marks ++ mark.toList) phase'

/-- The marks of one thread. -/
def marksOf [DecidableEq Thread] {Mark : Type v} (t : Thread) (history : List (Thread × Mark)) :
    List Mark :=
  history.filterMap fun entry => if entry.1 = t then some entry.2 else none

section Marks

variable [DecidableEq Thread] {Mark : Type v} {t t' : Thread} {history : List (Thread × Mark)}

theorem marksOf_append_self (marks : List Mark) :
    marksOf t (history ++ marks.map (Prod.mk t)) = marksOf t history ++ marks := by
  simp [marksOf, List.filterMap_append, List.filterMap_map]

theorem marksOf_append_other (h : t' ≠ t) (marks : List Mark) :
    marksOf t' (history ++ marks.map (Prod.mk t)) = marksOf t' history := by
  simp [marksOf, List.filterMap_append, List.filterMap_map, h.symm]

end Marks

/-- The values that the effects of a history put into the stack. -/
def pushedValues (history : List (Thread × StackMark Value)) : List Value :=
  history.filterMap fun entry => match entry.2 with
    | .push v => some v
    | _ => none

/-- The values that the effects of a history take out of the stack. -/
def poppedValues (history : List (Thread × StackMark Value)) : List Value :=
  history.filterMap fun entry => match entry.2 with
    | .pop v => some v
    | _ => none

/-- No value is lost, taken twice or invented. -/
theorem Lifo.conserves {history : List (Thread × StackMark Value)} {values : List Value}
    (h : Lifo history values) :
    (pushedValues history : Multiset Value) = poppedValues history + (values : Multiset Value) := by
  induction h with
  | nil => rfl
  | @push history values t v _ ih =>
      have hPushed : pushedValues (history ++ [(t, .push v)]) = pushedValues history ++ [v] := by
        simp [pushedValues]
      have hPopped : poppedValues (history ++ [(t, .push v)]) = poppedValues history := by
        simp [poppedValues]
      rw [hPushed, hPopped, ← Multiset.coe_add, ih, add_assoc, Multiset.coe_add values,
        Multiset.coe_eq_coe.mpr (List.perm_append_singleton v values)]
  | @pop history values t v _ ih =>
      have hPushed : pushedValues (history ++ [(t, .pop v)]) = pushedValues history := by
        simp [pushedValues]
      have hPopped : poppedValues (history ++ [(t, .pop v)]) = poppedValues history ++ [v] := by
        simp [poppedValues]
      rw [hPushed, hPopped, ih, ← Multiset.coe_add, add_assoc, Multiset.coe_add [v]]
      rfl
  | @other history values t mark _ hMark ih =>
      have hPushed : pushedValues (history ++ [(t, mark)]) = pushedValues history := by
        cases mark <;> first | (simp [pushedValues]; done) | cases hMark
      have hPopped : poppedValues (history ++ [(t, mark)]) = poppedValues history := by
        cases mark <;> first | (simp [poppedValues]; done) | cases hMark
      rw [hPushed, hPopped, ih]

section Balance

/-- What an effect puts into the stack. -/
def putIn : Option (StackMark Value) → Multiset Value
  | some (.push v) => {v}
  | _ => 0

/-- What an effect takes out of the stack. -/
def takenOut : Option (StackMark Value) → Multiset Value
  | some (.pop v) => {v}
  | _ => 0

/-- What a caller passes to an operation. -/
def passedIn : Option (StackMark Value) → Multiset Value
  | some (.callPush v) => {v}
  | _ => 0

/-- What an operation returns, or could not take. -/
def handedBack : Option (StackMark Value) → Multiset Value
  | some (.popped v) | some (.full v) | some (.threw v) => {v}
  | _ => 0

/-- The value that an operation holds between the caller and the stack. -/
def StackPhase.hand : StackPhase Value → Multiset Value
  | .pushing v | .hasPopped v => {v}
  | _ => 0

variable {t : Thread} {history : List (Thread × StackMark Value)} {values values' : List Value}
  {mark : Option (StackMark Value)} {phase phase' : StackPhase Value}

/-- The values before and after one more mark. -/
theorem Lifo.balance (h : Lifo history values)
    (h' : Lifo (history ++ mark.toList.map (Prod.mk t)) values') :
    (values' : Multiset Value) + takenOut mark = values + putIn mark := by
  have hPushed : (pushedValues (history ++ mark.toList.map (Prod.mk t)) : Multiset Value) =
      pushedValues history + putIn mark := by
    rw [pushedValues, List.filterMap_append, ← Multiset.coe_add]
    rcases mark with _ | ⟨_ | _ | _ | _ | _ | _ | _ | _ | _⟩ <;> rfl
  have hPopped : (poppedValues (history ++ mark.toList.map (Prod.mk t)) : Multiset Value) =
      poppedValues history + takenOut mark := by
    rw [poppedValues, List.filterMap_append, ← Multiset.coe_add]
    rcases mark with _ | ⟨_ | _ | _ | _ | _ | _ | _ | _ | _⟩ <;> rfl
  have hAll := h'.conserves
  rw [hPushed, hPopped, h.conserves, add_assoc, add_assoc] at hAll
  rw [add_comm (values' : Multiset Value)]
  exact (add_left_cancel hAll).symm

theorem StackTurn.balance (h : StackTurn phase mark phase') :
    phase'.hand + handedBack mark + putIn mark = phase.hand + takenOut mark + passedIn mark := by
  cases h <;> simp [StackPhase.hand, handedBack, putIn, takenOut, passedIn]

/-- A value moves between the caller, the operation and the stack. -/
theorem StackTurn.moves (hTurn : StackTurn phase mark phase') (h : Lifo history values)
    (h' : Lifo (history ++ mark.toList.map (Prod.mk t)) values') :
    (values' : Multiset Value) + phase'.hand + handedBack mark =
      values + phase.hand + passedIn mark := by
  have hValues := h.balance h'
  have hHand := hTurn.balance
  apply add_right_cancel (b := takenOut mark)
  calc (values' : Multiset Value) + phase'.hand + handedBack mark + takenOut mark
      = (values' + takenOut mark) + phase'.hand + handedBack mark := by abel
    _ = values + (phase'.hand + handedBack mark + putIn mark) := by rw [hValues]; abel
    _ = values + phase.hand + passedIn mark + takenOut mark := by rw [hHand]; abel

end Balance

end NfNetwork.Machinery
