import NfNetwork.Collections.StackList

/-! The tag of `mHead` grows with every exchange. A snapshot that still equals `mHead`
was therefore read together with the `Next` of its node, although it is loaded in two
parts and the node may have been given back and rented again in between. -/
namespace NfNetwork.Collections

open Machinery

variable {Thread Node Value : Type}

/-- No snapshot has a tag from the future, and one that is still good was read with the
`Next` of its node. -/
def StackPc.Tagged (stack : LockFreeStack Node Value) : StackPc Node Value → Prop
  | .tryPop (.loadNode uid) => uid ≤ stack.mHead.UID
  | .tryPop (.loadNext snapshotHead) => snapshotHead.UID ≤ stack.mHead.UID
  | .tryPop (.compareExchange snapshotHead next) => snapshotHead.UID ≤ stack.mHead.UID ∧
      (stack.mHead = snapshotHead → ∀ n, snapshotHead.Node = some n → next = stack.next n)
  | _ => True

/-- What a stack that threads share promises. -/
structure StackSystem.Linearizable [DecidableEq Thread] (s : StackSystem Thread Node Value) :
    Prop where
  /-- The exchanges so far, in their order, are those of an abstract stack with the listed
  values; nothing is lost, taken twice or invented. -/
  values : ∃ list, s.stack.Linked list ∧ Lifo s.history (list.map s.stack.data) ∧
    (pushedValues s.history : Multiset Value) = poppedValues s.history + list.map s.stack.data
  /-- Each successful operation is one of these exchanges, made between call and return. -/
  calls : ∀ t, StackCalls (marksOf t s.history) ((s.threads t).phase s.stack)
  /-- A popper that passed the decrement finds a node. -/
  notNull : ∀ t, (s.threads t).admitted = true → s.stack.mHead.Node ≠ none
  notCrashed : ∀ t, s.threads t ≠ .crashed

section Tags

variable {stack stack' : LockFreeStack Node Value} {pc : StackPc Node Value}

theorem StackPc.Tagged.reads (h : pc.Tagged stack) : pc.Reads stack := by
  cases pc with
  | tryPop pc =>
      cases pc with
      | compareExchange snapshotHead next => exact h.2
      | _ => trivial
  | _ => trivial

/-- Others may push and pop, and write nodes that are not the first one. -/
theorem StackPc.Tagged.frame (h : pc.Tagged stack)
    (hHead : stack'.mHead = stack.mHead ∧
        (∀ n, stack.mHead.Node = some n → stack'.next n = stack.next n) ∨
      stack.mHead.UID < stack'.mHead.UID) : pc.Tagged stack' := by
  have hGrows : stack.mHead.UID ≤ stack'.mHead.UID := by
    obtain ⟨hSame, _⟩ | hLater := hHead
    · rw [hSame]
      exact UInt64.le_refl _
    · exact UInt64.le_of_lt hLater
  cases pc with
  | tryPop pc =>
      cases pc with
      | loadNode uid | loadNext snapshotHead => exact UInt64.le_trans h hGrows
      | compareExchange snapshotHead next =>
          obtain ⟨hPast, hRead⟩ := h
          refine ⟨UInt64.le_trans hPast hGrows, ?_⟩
          intro hNow n hNode
          obtain ⟨hSame, hNext⟩ | hLater := hHead
          · rw [hSame] at hNow
            rw [hNext n (hNow ▸ hNode)]
            exact hRead hNow n hNode
          · rw [hNow] at hLater
            exact absurd (UInt64.lt_of_le_of_lt hPast hLater) (UInt64.lt_irrefl _)
      | _ => trivial
  | _ => trivial

variable [DecidableEq Node] {a : StackAdvance Node Value} {fresh : Option Node}

/-- A thread's own loads are up to date. -/
theorem StackPc.step_tagged (h : pc.Tagged stack) (hStep : pc.step stack fresh = some a)
    (hAlive : a.pc ≠ .crashed) : a.pc.Tagged a.stack := by
  cases pc with
  | idle | crashed => cases hStep
  | push inputData pc =>
      cases pc
      all_goals simp only [StackPc.step, PushPc.step] at hStep
      all_goals repeat' split at hStep
      all_goals cases hStep
      all_goals trivial
  | tryPop pc =>
      cases pc with
      | decrementUsedSize =>
          cases hStep
          simp only [PopPc.step]
          split <;> trivial
      | loadUID =>
          cases hStep
          exact UInt64.le_refl _
      | loadNode uid =>
          simp only [StackPc.step, PopPc.step] at hStep
          split at hStep <;> cases hStep
          · exact absurd rfl hAlive
          · exact h
      | loadNext snapshotHead =>
          simp only [StackPc.step, PopPc.step] at hStep
          split at hStep
          · cases hStep
            exact absurd rfl hAlive
          · rename_i n hNode
            cases hStep
            refine ⟨h, ?_⟩
            intro _ m hm
            cases hNode.symm.trans hm
            rfl
      | compareExchange snapshotHead next =>
          simp only [StackPc.step, PopPc.step] at hStep
          split at hStep
          · rename_i head hError
            rw [(LockFreeStack.compareExchangeHead_eq_error.mp hError).2] at hStep
            cases hStep
            exact UInt64.le_refl _
          · split at hStep <;> cases hStep
            · exact absurd rfl hAlive
            · trivial
      | _ =>
          cases hStep
          trivial

end Tags

section Runs

variable [Fintype Thread] [DecidableEq Thread] {s s' : StackSystem Thread Node Value} {updates : Nat}
  {t : Thread}

/-- The invariant of a run that has updated `mHead` so often. -/
structure StackSystem.Holds (updates : Nat) (s : StackSystem Thread Node Value) : Prop where
  tag : s.stack.mHead.UID.toNat = updates
  tagged : ∀ t, (s.threads t).Tagged s.stack
  shape : ∃ list, s.Shaped list ∧ s.Counted list.length

/-- A popper that passed the decrement finds a node. -/
theorem StackSystem.Shaped.notNull {list : List Node} (h : s.Shaped list)
    (hCounted : s.Counted list.length) (hAdmitted : (s.threads t).admitted = true) :
    s.stack.mHead.Node ≠ none := by
  intro hNull
  have hLinked := h.linked
  rw [LockFreeStack.Linked, hNull] at hLinked
  have hPos := hCounted.length_pos hAdmitted
  cases list with
  | nil => exact Nat.lt_irrefl 0 hPos
  | cons n later => cases hLinked.1

theorem StackSystem.Holds.linearizable (h : s.Holds updates) : s.Linearizable := by
  obtain ⟨_, _, list, hShaped, hCounted⟩ := h
  refine ⟨⟨list, hShaped.linked, hShaped.lifo, hShaped.lifo.conserves⟩, hShaped.calls,
    fun t => hShaped.notNull hCounted, ?_⟩
  intro t hCrashed
  have hReady := hShaped.ready t
  rw [hCrashed] at hReady
  exact hReady

theorem StackSystem.Holds.start (maxCapacity : Nat) (nodes : Node → StackNode Node Value) :
    (StackSystem.start maxCapacity nodes : StackSystem Thread Node Value).Holds 0 := by
  refine ⟨rfl, fun _ => True.intro, [], ⟨rfl, Multiset.nodup_zero, ?_, .nil, fun _ => True.intro,
    fun _ => .nil⟩, ?_⟩
  · have hHands : (StackSystem.start maxCapacity nodes : StackSystem Thread Node Value).hands = 0 :=
      crewTotal_eq_zero fun _ => rfl
    rw [hHands]
    rfl
  · have hZero : ∀ kind : StackPc Node Value → Bool, kind .idle = false →
        crewCount kind (fun _ : Thread => StackPc.idle) = 0 :=
      fun kind hKind => crewCount_eq_zero fun _ => hKind
    constructor <;> simp [StackSystem.start, hZero StackPc.admitted rfl, hZero StackPc.refused rfl,
      hZero StackPc.pushed rfl]

variable [DecidableEq Node]

theorem StackSystem.Holds.step {action : StackAction Thread Node Value} (h : s.Holds updates)
    (hStep : s.step action = some s') (hBudget : updates + s.headUpdate s' < 2 ^ 64) :
    s'.Holds (updates + s.headUpdate s') := by
  obtain ⟨hTag, hTagged, list, hShaped, hCounted⟩ := h
  cases action with
  | callPush t inputData =>
      simp only [StackSystem.step] at hStep
      split at hStep <;> cases hStep
      rename_i hIdle
      rw [StackSystem.headUpdate_same]
      · exact ⟨hTag, forall_update hTagged True.intro fun _ _ hOther => hOther, list,
          hShaped.call hIdle rfl True.intro rfl .callPush, hCounted.call hIdle (.inr ⟨inputData, rfl⟩)⟩
      · rfl
  | callTryPop t =>
      simp only [StackSystem.step] at hStep
      split at hStep <;> cases hStep
      rename_i hIdle
      rw [StackSystem.headUpdate_same]
      · exact ⟨hTag, forall_update hTagged True.intro fun _ _ hOther => hOther, list,
          hShaped.call hIdle rfl True.intro rfl .callTryPop, hCounted.call hIdle (.inl rfl)⟩
      · rfl
  | run t fresh =>
      obtain ⟨a, hRun, rfl⟩ := Option.map_eq_some_iff.mp hStep
      have hNull := hShaped.notNull hCounted (t := t)
      have hAlive := StackPc.step_alive (hShaped.ready t) hNull hRun
      have hMoves := StackPc.moves hRun hAlive
      obtain ⟨list', hShaped', hLength, _⟩ := hShaped.run hNull (hTagged t).reads hRun
      have hOwn := StackPc.step_tagged (hTagged t) hRun hAlive
      have hCounted' := hCounted.run hRun hAlive hLength
      obtain hSame | hNext := hMoves.head
      · rw [StackSystem.headUpdate_same hSame]
        refine ⟨(congrArg (fun head => head.UID.toNat) hSame).trans hTag, ?_, list', hShaped',
          hCounted'⟩
        refine forall_update hTagged hOwn fun t' _ hOther => hOther.frame (.inl ⟨hSame, ?_⟩)
        intro n hn
        obtain ⟨later, rfl⟩ := hShaped.head_mem hn
        exact (hShaped.list_frame hMoves List.mem_cons_self).1
      · rw [StackSystem.headUpdate_next hNext] at hBudget ⊢
        have hTag' : a.stack.mHead.UID.toNat = updates + 1 := by
          rw [hNext, UInt64.toNat_add, hTag]
          exact Nat.mod_eq_of_lt hBudget
        have hLater : s.stack.mHead.UID < a.stack.mHead.UID := by
          rw [UInt64.lt_iff_toNat_lt, hTag, hTag']
          exact Nat.lt_succ_self updates
        exact ⟨hTag', forall_update hTagged hOwn fun t' _ hOther => hOther.frame (.inr hLater), list',
          hShaped', hCounted'⟩

/-- In every run of fewer than 2^64 updates of `mHead` the stack is linearizable. -/
theorem StackSystem.linearizable_of_spends {maxCapacity : Nat} {nodes : Node → StackNode Node Value}
    (h : Spends (Takes StackSystem.step) StackSystem.headUpdate (StackSystem.start maxCapacity nodes)
      updates s)
    (hUpdates : updates < 2 ^ 64) : s.Linearizable :=
  (h.invariant (StackSystem.Holds.start maxCapacity nodes)
    (fun hHolds hStep hBudget => hHolds.step hStep hBudget) hUpdates).linearizable

/-- A popper is overtaken: the node of its snapshot is popped, given back and pushed
again with another value. -/
private def overtaken : List (StackAction Bool Nat Nat) :=
  List.flatten [.callPush false 10 :: List.replicate 8 (.run false (some 0)),
    .callPush false 20 :: List.replicate 8 (.run false (some 1)),
    .callTryPop true :: List.replicate 4 (.run true none),
    .callTryPop false :: List.replicate 8 (.run false none),
    .callPush false 30 :: List.replicate 8 (.run false (some 1)), List.replicate 6 (.run true none)]

theorem StackSystem.linearizable_of_spends_overtaken : ∃ s : StackSystem Bool Nat Nat,
    s.Linearizable ∧ poppedValues s.history = [20, 30] ∧ s.threads true = .idle ∧
      s.stack.mHead.UID = 5 := by
  have hRun : (exec StackSystem.step (StackSystem.start 2 fun _ => ⟨none, 0⟩) overtaken).map
      (fun s => decide (poppedValues s.history = [20, 30] ∧ s.threads true = .idle ∧
        s.stack.mHead.UID = 5)) = some true := by decide +kernel
  obtain ⟨s, hExec, hEnd⟩ := Option.map_eq_some_iff.mp hRun
  obtain ⟨updates, hUpdates, hSpends⟩ := spends_of_exec StackSystem.headUpdate_le_one hExec
  have hLength : overtaken.length = 47 := rfl
  exact ⟨s, StackSystem.linearizable_of_spends hSpends (by omega), of_decide_eq_true hEnd⟩

end Runs

end NfNetwork.Collections
