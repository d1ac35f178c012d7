import NfNetwork.Collections.StackReset

/-! The capacity of `LockFreeStack` in the hands of one thread. `Push` refuses when
`mUsedSize > mMaxCapacity`, so a full stack takes one more. -/
namespace NfNetwork.Collections

open Machinery ObjectPool

variable {Node Value : Type}

inductive StackUse (Value : Type) where
  | push (inputData : Value)
  | tryPop

def StackUse.op : StackUse Value → StackOp Value
  | .push inputData => .push inputData
  | .tryPop => .tryPop

/-- How many elements are held after these calls if every `Push` is accepted. -/
def heldAfter (uses : List (StackUse Value)) : Nat :=
  uses.foldl (fun held use => match use with
    | .push _ => held + 1
    | .tryPop => held - 1) 0

@[simp] theorem heldAfter_nil : heldAfter ([] : List (StackUse Value)) = 0 := rfl

@[simp] theorem heldAfter_push (before : List (StackUse Value)) (v : Value) :
    heldAfter (before ++ [.push v]) = heldAfter before + 1 := by
  simp [heldAfter]

@[simp] theorem heldAfter_tryPop (before : List (StackUse Value)) :
    heldAfter (before ++ [.tryPop]) = heldAfter before - 1 := by
  simp [heldAfter]

namespace PooledStack

/-- The nodes of the stack, from `mHead` on. -/
def Lists (s : PooledStack Node Value) (list : List Node) : Prop := Chain s.next s.mHead.Node list none

variable [DecidableEq Node]

/-- No call fails, no more than `maxCapacity` elements are ever held, and `Push` returns false, with
the stack as it was, exactly when that many are held. -/
structure RespectsCapacity (A : Allocator Node) (maxCapacity : Nat) (s : PooledStack Node Value)
    (uses : List (StackUse Value)) : Prop where
  serves : ∃ seen s', answers (step A) s (uses.map StackUse.op) = .ok (seen, s')
  bounded : ∀ before later seen s', uses = before ++ later →
    answers (step A) s (before.map StackUse.op) = .ok (seen, s') →
    ∃ list, s'.Lists list ∧ list.length ≤ maxCapacity
  refuses : ∀ before v later seen s', uses = before ++ .push v :: later →
    answers (step A) s (before.map StackUse.op) = .ok (seen, s') →
    ∃ list accepted s'', s'.Lists list ∧ s'.push A v = .ok (accepted, s'') ∧
      (accepted = false ↔ list.length = maxCapacity) ∧ (accepted = false → s'' = s')

section Capacity

variable {A : Allocator Node} {s : PooledStack Node Value} {uid : UInt64}
  {blocks : Node → BlockNode Node} {nodes : Node → StackNode Node Value} {values : List Value}
  {maxCapacity : Nat}

omit [DecidableEq Node] in
theorem Represents.lists (h : s.Represents uid blocks nodes maxCapacity values) :
    ∃ list, s.Lists list ∧ list.length = values.length := by
  obtain ⟨list, _, hKeeps, _, _, rfl⟩ := h
  exact ⟨list, hKeeps.linked, by rw [List.length_map]⟩

/-- A stack with no more than `maxCapacity` elements takes one more. -/
theorem Represents.push (h : s.Represents uid blocks nodes maxCapacity values)
    (hHeld : values.length ≤ maxCapacity) (v : Value) :
    ∃ s', s.push A v = .ok (true, s') ∧ s'.Represents uid blocks nodes maxCapacity (v :: values) := by
  obtain ⟨outcome, s', values', hStep, hLifo, hAfter⟩ := h.serve (A := A) (show (StackOp.push v).resets = false from rfl)
  have hSmall := Nat.mod_le values.length (2 ^ 64)
  rw [lifoStep, if_neg (by omega)] at hLifo
  cases hLifo
  rw [step] at hStep
  cases hPush : s.push A v with
  | error failure =>
      rw [hPush] at hStep
      cases hStep
  | ok r =>
      obtain ⟨accepted, after⟩ := r
      rw [hPush] at hStep
      cases hStep
      exact ⟨_, rfl, hAfter⟩

/-- While every `Push` finds at most `maxCapacity` elements, all are accepted. -/
theorem holds_heldAfter (A : Allocator Node) (uid : UInt64) (blocks : Node → BlockNode Node)
    (nodes : Node → StackNode Node Value) (uses : List (StackUse Value))
    (hPushes : ∀ before v later, uses = before ++ .push v :: later → heldAfter before ≤ maxCapacity) :
    ∃ seen s values, answers (step A) (newWith maxCapacity uid blocks nodes) (uses.map StackUse.op) =
        .ok (seen, s) ∧
      s.Represents uid blocks nodes maxCapacity values ∧ values.length = heldAfter uses := by
  induction uses using List.reverseRecOn with
  | nil => exact ⟨[], _, [], rfl, Represents.new uid blocks nodes maxCapacity, rfl⟩
  | append_singleton uses use ih =>
      obtain ⟨seen, s, values, hBefore, hHolds, hLength⟩ := ih (by
        intro before v later hSplit
        exact hPushes before v (later ++ [use]) (by simp [hSplit]))
      obtain ⟨outcome, s', values', hStep, hLifo, hAfter⟩ :=
        hHolds.serve (A := A) (show use.op.resets = false by cases use <;> rfl)
      refine ⟨seen ++ [outcome], s', values', ?_, hAfter, ?_⟩
      · rw [List.map_append]
        exact answers_concat hBefore hStep
      · cases use with
        | push v =>
            have hHeld := hPushes uses v [] rfl
            have hSmall := Nat.mod_le values.length (2 ^ 64)
            rw [StackUse.op, lifoStep, if_neg (by omega)] at hLifo
            cases hLifo
            rw [heldAfter_push, List.length_cons, hLength]
        | tryPop =>
            rw [heldAfter_tryPop, ← hLength]
            cases values with
            | nil =>
                cases hLifo
                rfl
            | cons v later =>
                cases hLifo
                rfl

/-- What was never found full has at most `maxCapacity` elements. -/
theorem heldAfter_le {uses before later : List (StackUse Value)}
    (hPushes : ∀ before v later, uses = before ++ .push v :: later → heldAfter before ≠ maxCapacity)
    (hSplit : uses = before ++ later) : heldAfter before ≤ maxCapacity := by
  induction before using List.reverseRecOn generalizing later with
  | nil => exact Nat.zero_le _
  | append_singleton before use ih =>
      rw [List.append_assoc, List.singleton_append] at hSplit
      have hBefore := ih hSplit
      cases use with
      | push v =>
          have hFree := hPushes before v later hSplit
          rw [heldAfter_push]
          omega
      | tryPop =>
          rw [heldAfter_tryPop]
          omega

/-- A stack that respects its capacity holds what was pushed and not popped. -/
theorem RespectsCapacity.heldAfter_le {uses before later : List (StackUse Value)}
    (h : (newWith maxCapacity uid blocks nodes).RespectsCapacity A maxCapacity uses)
    (hSplit : uses = before ++ later) : heldAfter before ≤ maxCapacity := by
  induction hCount : before.length using Nat.strongRecOn generalizing before later with
  | ind count ih =>
      obtain ⟨seen, s, values, hBefore, hHolds, hLength⟩ :=
        holds_heldAfter A uid blocks nodes before (by
          intro earlier v rest hEarlier
          have hShorter : earlier.length < count := by
            rw [← hCount, hEarlier, List.length_append, List.length_cons]
            omega
          exact ih earlier.length hShorter
            (show uses = earlier ++ (.push v :: rest ++ later) by rw [hSplit, hEarlier, List.append_assoc])
            rfl)
      obtain ⟨list, hList, hLe⟩ := h.bounded before later seen s hSplit hBefore
      obtain ⟨list', hList', hSame⟩ := hHolds.lists
      rw [Chain.unique hList hList'] at hLe
      omega

/-- `Push` breaks the capacity exactly when it finds the stack full. -/
theorem respectsCapacity_iff (maxCapacity : Nat) (uses : List (StackUse Value)) :
    (newWith maxCapacity uid blocks nodes).RespectsCapacity A maxCapacity uses ↔
      ∀ before v later, uses = before ++ .push v :: later → heldAfter before ≠ maxCapacity := by
  constructor
  · intro h before v later hSplit hFull
    obtain ⟨seen, s, values, hBefore, hHolds, hLength⟩ :=
      holds_heldAfter A uid blocks nodes before (by
        intro earlier w rest hEarlier
        exact h.heldAfter_le (show uses = earlier ++ (.push w :: rest ++ .push v :: later) by
          rw [hSplit, hEarlier, List.append_assoc]))
    obtain ⟨list, accepted, s', hList, hPush, hRefused, -⟩ := h.refuses before v later seen s hSplit hBefore
    obtain ⟨list', hList', hSame⟩ := hHolds.lists
    obtain ⟨after, hAccepted, -⟩ := hHolds.push (A := A) (by omega) v
    cases hAccepted.symm.trans hPush
    rw [Chain.unique hList hList'] at hRefused
    exact absurd (hRefused.mpr (by omega)) (by decide)
  · intro hPushes
    have hReached (before later : List (StackUse Value)) (hSplit : uses = before ++ later) :=
      holds_heldAfter A uid blocks nodes before (by
        intro earlier v rest hEarlier
        exact PooledStack.heldAfter_le hPushes (show uses = earlier ++ (.push v :: rest ++ later) by
          rw [hSplit, hEarlier, List.append_assoc]))
    refine ⟨?_, ?_, ?_⟩
    · obtain ⟨seen, s, values, hAll, -⟩ := hReached uses [] (by simp)
      exact ⟨seen, s, hAll⟩
    · intro before later seen s hSplit hBefore
      obtain ⟨seen', s', values, hBefore', hHolds, hLength⟩ := hReached before later hSplit
      cases hBefore'.symm.trans hBefore
      obtain ⟨list, hList, hSame⟩ := hHolds.lists
      have hLe := PooledStack.heldAfter_le hPushes hSplit
      exact ⟨list, hList, by omega⟩
    · intro before v later seen s hSplit hBefore
      obtain ⟨seen', s', values, hBefore', hHolds, hLength⟩ := hReached before _ hSplit
      cases hBefore'.symm.trans hBefore
      obtain ⟨list, hList, hSame⟩ := hHolds.lists
      have hLe := PooledStack.heldAfter_le hPushes hSplit
      have hFree := hPushes before v later hSplit
      obtain ⟨after, hAccepted, -⟩ := hHolds.push (A := A) (by omega) v
      refine ⟨list, true, after, hList, hAccepted, ?_, nofun⟩
      refine ⟨nofun, ?_⟩
      intro hFull
      omega

/-- What the constructor and the first `Init` leave. -/
theorem init_new (uid : UInt64) (blocks : Node → BlockNode Node)
    (nodes : Node → StackNode Node Value) (maxCapacity : Nat) :
    (PooledStack.new uid blocks nodes).init maxCapacity = .ok (newWith maxCapacity uid blocks nodes) :=
  (Keeps.new uid blocks nodes 0).init_untouched rfl rfl maxCapacity

/-- After `Init` the capacity is respected by the calls that never push on a full stack, and by no
others. -/
theorem capacity_of_init (A : Allocator Node) (uid : UInt64) (blocks : Node → BlockNode Node)
    (nodes : Node → StackNode Node Value) (maxCapacity : Nat) (uses : List (StackUse Value)) :
    ∃ s, (PooledStack.new uid blocks nodes).init maxCapacity = .ok s ∧
      (s.RespectsCapacity A maxCapacity uses ↔
        ∀ before v later, uses = before ++ .push v :: later → heldAfter before ≠ maxCapacity) :=
  ⟨_, init_new uid blocks nodes maxCapacity, respectsCapacity_iff maxCapacity uses⟩

end Capacity

private def afterSum : Allocator Nat where
  malloc allocated := allocated.sum + 1
  fresh := sum_succ_not_mem

/-- A stack of capacity one takes a second element. -/
theorem not_respectsCapacity : ¬ ∀ (maxCapacity : Nat) (uses : List (StackUse Nat))
    (s : PooledStack Nat Nat),
    (PooledStack.new 0 (fun _ => ⟨none, 0, false, 0⟩) fun _ => ⟨none, 0⟩).init maxCapacity = .ok s →
    s.RespectsCapacity afterSum maxCapacity uses := by
  intro h
  have hTwo := h 1 [.push 5, .push 6] _ (init_new _ _ _ 1)
  exact (respectsCapacity_iff 1 _).mp hTwo [.push 5] 6 [] rfl rfl

end PooledStack
end NfNetwork.Collections
