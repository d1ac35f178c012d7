import Mathlib.Data.List.Basic
import Mathlib.Tactic.Common

/-! A `while (true)` loop left by `return`. The body is a total function of the
loop state; `loop` counts passes, so running out of them is visible and
termination is the statement that enough passes give a result. -/
namespace NfNetwork.Machinery

universe u v
variable {State : Type u} {Result : Type v}

/-- What one pass of the body decides. -/
inductive Pass (State : Type u) (Result : Type v) where
  | again (state : State)
  | leave (result : Result)

/-- Run the body at most `passes` times. -/
def loop (body : State → Pass State Result) : Nat → State → Option Result
  | 0, _ => none
  | passes + 1, state => match body state with
    | .again next => loop body passes next
    | .leave result => some result

theorem loop_of_again {body : State → Pass State Result} {state next : State}
    (h : body state = .again next) (passes : Nat) :
    loop body (passes + 1) state = loop body passes next := by
  rw [loop, h]

theorem loop_of_leave {body : State → Pass State Result} {state : State} {result : Result}
    (h : body state = .leave result) (passes : Nat) :
    loop body (passes + 1) state = some result := by
  rw [loop, h]

/-- How many passes `loop` makes. -/
def passesOf (body : State → Pass State Result) : Nat → State → Nat
  | 0, _ => 0
  | passes + 1, state => match body state with
    | .again next => passesOf body passes next + 1
    | .leave _ => 1

theorem passesOf_of_again {body : State → Pass State Result} {state next : State}
    (h : body state = .again next) (passes : Nat) :
    passesOf body (passes + 1) state = passesOf body passes next + 1 := by
  rw [passesOf, h]

theorem passesOf_of_leave {body : State → Pass State Result} {state : State} {result : Result}
    (h : body state = .leave result) (passes : Nat) : passesOf body (passes + 1) state = 1 := by
  rw [passesOf, h]

/-- What every pass keeps, and leaving keeps, the loop keeps. -/
theorem loop_keeps (Inv : State → Prop) (Ends : Result → Prop) {body : State → Pass State Result}
    (hAgain : ∀ {s s'}, Inv s → body s = .again s' → Inv s')
    (hLeave : ∀ {s result}, Inv s → body s = .leave result → Ends result)
    {state : State} {result : Result} {passes : Nat} (hInv : Inv state)
    (h : loop body passes state = some result) : Ends result := by
  induction passes generalizing state with
  | zero => cases h
  | succ passes ih =>
      cases hBody : body state with
      | again next =>
          rw [loop_of_again hBody] at h
          exact ih (hAgain hInv hBody) h
      | leave result' =>
          rw [loop_of_leave hBody] at h
          cases h
          exact hLeave hInv hBody

end NfNetwork.Machinery
