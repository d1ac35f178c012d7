import NfNetwork.Collections.StackLifo

/-! A stack with one popper needs no tags: between the popper's loads and its exchange
nobody else takes a node, so the node of its snapshot stays listed with its `Next`. -/
namespace NfNetwork.Collections

open Machinery

variable {Thread Node Value : Type}

def StackPc.popping : StackPc Node Value → Bool
  | .tryPop _ => true
  | _ => false

/-- The node of the popper's snapshot is listed, and the `Next` it read is the node's. -/
def StackPc.Listed (stack : LockFreeStack Node Value) (list : List Node) : StackPc Node Value → Prop
  | .tryPop (.loadNext snapshotHead) => ∀ n, snapshotHead.Node = some n → n ∈ list
  | .tryPop (.compareExchange snapshotHead next) =>
      ∀ n, snapshotHead.Node = some n → n ∈ list ∧ next = stack.next n
  | _ => True

section OwnSteps

variable {stack stack' : LockFreeStack Node Value} {list list' : List Node} {pc : StackPc Node Value}

theorem StackPc.Listed.reads (h : pc.Listed stack list) : pc.Reads stack := by
  cases pc with
  | tryPop pc =>
      cases pc with
      | compareExchange snapshotHead next => exact fun _ n hNode => (h n hNode).2
      | _ => trivial
  | _ => trivial

theorem StackPc.listed_of_not_popping (h : pc.popping = false) : pc.Listed stack list := by
  cases pc with
  | tryPop pc => cases h
  | _ => trivial

/-- Listed nodes may get others in front of them. -/
theorem StackPc.Listed.frame (h : pc.Listed stack list) (hList : list ⊆ list')
    (hNext : ∀ n ∈ list, stack'.next n = stack.next n) : pc.Listed stack' list' := by
  cases pc with
  | tryPop pc =>
      cases pc with
      | loadNext snapshotHead => exact fun n hNode => hList (h n hNode)
      | compareExchange snapshotHead next =>
          intro n hNode
          obtain ⟨hMem, hRead⟩ := h n hNode
          exact ⟨hList hMem, hRead.trans (hNext n hMem).symm⟩
      | _ => trivial
  | _ => trivial

variable [DecidableEq Node] {a : StackAdvance Node Value} {fresh : Option Node}

theorem StackPc.not_takes (h : pc.popping = false) : pc.takes stack = false := by
  cases pc with
  | tryPop pc => cases h
  | _ => rfl

/-- A thread that is not popping does not start to. -/
theorem StackPc.step_not_popping (h : pc.popping = false) (hStep : pc.step stack fresh = some a) :
    a.pc.popping = false := by
  cases pc with
  | idle | crashed => cases hStep
  | tryPop pc => cases h
  | push inputData pc =>
      cases pc
      all_goals simp only [StackPc.step, PushPc.step] at hStep
      all_goals repeat' split at hStep
      all_goals cases hStep
      all_goals rfl

/-- What the popper reads is listed. -/
theorem StackPc.step_listed (h : pc.Listed stack list) (hLinked : stack.Linked list)
    (hStep : pc.step stack fresh = some a) (hAlive : a.pc ≠ .crashed) : a.pc.Listed stack list := by
  have hFirst : ∀ n, stack.mHead.Node = some n → n ∈ list := by
    intro n hNode
    rw [LockFreeStack.Linked, hNode] at hLinked
    obtain ⟨later, rfl, _⟩ := hLinked.eq_cons
    exact List.mem_cons_self
  cases pc with
  | idle | crashed => cases hStep
  | push inputData pc => exact StackPc.listed_of_not_popping (StackPc.step_not_popping rfl hStep)
  | tryPop pc =>
      cases pc with
      | decrementUsedSize =>
          cases hStep
          simp only [PopPc.step]
          split <;> trivial
      | loadNode uid =>
          simp only [StackPc.step, PopPc.step] at hStep
          split at hStep
          · cases hStep
            exact absurd rfl hAlive
          · rename_i n hNode
            cases hStep
            intro m hm
            cases hm
            exact hFirst n hNode
      | loadNext snapshotHead =>
          simp only [StackPc.step, PopPc.step] at hStep
          split at hStep
          · cases hStep
            exact absurd rfl hAlive
          · rename_i n hNode
            cases hStep
            intro m hm
            cases hNode.symm.trans hm
            exact ⟨h n hNode, rfl⟩
      | compareExchange snapshotHead next =>
          simp only [StackPc.step, PopPc.step] at hStep
          split at hStep
          · rename_i head hError
            rw [(LockFreeStack.compareExchangeHead_eq_error.mp hError).2] at hStep
            cases hStep
            exact hFirst
          · split at hStep <;> cases hStep
            · exact absurd rfl hAlive
            · trivial
      | _ =>
          cases hStep
          trivial

/-- A popper that has taken its node has nothing left to rely on. -/
theorem StackPc.listed_of_takes (hTakes : pc.takes stack = true)
    (hStep : pc.step stack fresh = some a) (hAlive : a.pc ≠ .crashed) :
    a.pc.Listed stack' list' := by
  have hMoves := StackPc.moves hStep hAlive
  cases hMoves with
  | quiet _ _ _ _ hNot => cases hTakes.symm.trans hNot
  | pop => trivial
  | _ => cases hTakes

end OwnSteps

section Runs

variable [Fintype Thread] [DecidableEq Thread] {s : StackSystem Thread Node Value} {popper t : Thread}
  {list : List Node}

/-- A stack that only one thread pops from. -/
structure StackSystem.OnePopper (s : StackSystem Thread Node Value) (popper : Thread)
    (list : List Node) : Prop where
  shaped : s.Shaped list
  counted : s.Counted list.length
  only : ∀ t, (s.threads t).popping = true → t = popper
  listed : ∀ t, (s.threads t).Listed s.stack list

/-- Only the popper calls `TryPop`. -/
theorem StackSystem.OnePopper.call {pc : StackPc Node Value} {mark : StackMark Value}
    (h : s.OnePopper popper list) (hIdle : s.threads t = .idle)
    (hCall : pc = .tryPop .decrementUsedSize ∧ mark = .callTryPop ∧ t = popper ∨
      ∃ v, pc = .push v .checkCapacity ∧ mark = .callPush v) :
    (s.advance t ⟨s.stack, pc, some mark⟩).OnePopper popper list := by
  have hOnly : pc.popping = true → t = popper := by
    obtain ⟨_, _, hPopper⟩ | ⟨v, rfl, _⟩ := hCall
    · exact fun _ => hPopper
    · exact fun hPopping => nomatch hPopping
  refine ⟨?_, ?_, ?_, ?_⟩
  · obtain ⟨rfl, rfl, _⟩ | ⟨v, rfl, rfl⟩ := hCall
    · exact h.shaped.call hIdle rfl True.intro rfl .callTryPop
    · exact h.shaped.call hIdle rfl True.intro rfl .callPush
  · obtain ⟨rfl, _⟩ | ⟨v, rfl, _⟩ := hCall
    · exact h.counted.call hIdle (.inl rfl)
    · exact h.counted.call hIdle (.inr ⟨v, rfl⟩)
  · intro t' hPopping
    by_cases hSame : t' = t
    · subst hSame
      rw [StackSystem.advance_self] at hPopping
      exact hOnly hPopping
    · rw [StackSystem.advance_other _ _ hSame] at hPopping
      exact h.only t' hPopping
  · refine forall_update h.listed ?_ fun t' _ hListed => hListed
    obtain ⟨rfl, _⟩ | ⟨v, rfl, _⟩ := hCall <;> trivial

/-- Nobody has called yet. -/
theorem StackSystem.OnePopper.start (popper : Thread) (maxCapacity : Nat)
    (nodes : Node → StackNode Node Value) :
    ∃ list, (StackSystem.start maxCapacity nodes : StackSystem Thread Node Value).OnePopper popper
      list := by
  have hHolds : (StackSystem.start maxCapacity nodes : StackSystem Thread Node Value).Holds 0 :=
    StackSystem.Holds.start maxCapacity nodes
  obtain ⟨_, _, list, hShaped, hCounted⟩ := hHolds
  exact ⟨list, hShaped, hCounted, fun _ hPopping => (nomatch hPopping), fun _ => True.intro⟩

variable [DecidableEq Node] {a : StackAdvance Node Value} {fresh : Option Node}

/-- Every step keeps the stack in shape, without a look at the tags. -/
theorem StackSystem.OnePopper.run (h : s.OnePopper popper list)
    (hStep : (s.threads t).step s.stack fresh = some a) :
    a.pc ≠ .crashed ∧ ∃ list', (s.advance t a).OnePopper popper list' := by
  have hNull := h.shaped.notNull h.counted (t := t)
  have hAlive := StackPc.step_alive (h.shaped.ready t) hNull hStep
  have hMoves := StackPc.moves hStep hAlive
  have hOwn := StackPc.step_listed (h.listed t) h.shaped.linked hStep hAlive
  have hNext := fun n hMem => (h.shaped.list_frame hMoves (n := n) hMem).1
  obtain ⟨list', hShaped, hLength, hKept⟩ := h.shaped.run hNull (h.listed t).reads hStep
  refine ⟨hAlive, list', hShaped, h.counted.run hStep hAlive hLength, ?_, ?_⟩
  · intro t' hPopping
    by_cases hSame : t' = t
    · subst hSame
      rw [StackSystem.advance_self] at hPopping
      cases hBefore : (s.threads t').popping with
      | true => exact h.only t' hBefore
      | false =>
          rw [StackPc.step_not_popping hBefore hStep] at hPopping
          cases hPopping
    · rw [StackSystem.advance_other _ _ hSame] at hPopping
      exact h.only t' hPopping
  · intro t'
    by_cases hSame : t' = t
    · subst hSame
      rw [StackSystem.advance_self]
      cases hTakes : (s.threads t').takes s.stack with
      | false => exact hOwn.frame (hKept hTakes) hNext
      | true => exact StackPc.listed_of_takes hTakes hStep hAlive
    · rw [StackSystem.advance_other _ _ hSame]
      cases hPopping : (s.threads t').popping with
      | false => exact StackPc.listed_of_not_popping hPopping
      | true =>
          have hMover : (s.threads t).popping = false := by
            by_contra hAlso
            rw [Bool.not_eq_false] at hAlso
            exact hSame ((h.only t' hPopping).trans (h.only t hAlso).symm)
          exact (h.listed t').frame (hKept (StackPc.not_takes hMover)) hNext

theorem StackSystem.OnePopper.step {s' : StackSystem Thread Node Value}
    {action : StackAction Thread Node Value} (h : s.OnePopper popper list)
    (hPopper : ∀ t, action = .callTryPop t → t = popper) (hStep : s.step action = some s') :
    ∃ list', s'.OnePopper popper list' := by
  cases action with
  | callPush t inputData =>
      simp only [StackSystem.step] at hStep
      split at hStep <;> cases hStep
      rename_i hIdle
      exact ⟨list, h.call hIdle (.inr ⟨inputData, rfl, rfl⟩)⟩
  | callTryPop t =>
      simp only [StackSystem.step] at hStep
      split at hStep <;> cases hStep
      rename_i hIdle
      exact ⟨list, h.call hIdle (.inl ⟨rfl, rfl, hPopper t rfl⟩)⟩
  | run t fresh =>
      obtain ⟨a, hRun, rfl⟩ := Option.map_eq_some_iff.mp hStep
      exact (h.run hRun).2

theorem StackSystem.OnePopper.of_exec {s' : StackSystem Thread Node Value}
    {actions : List (StackAction Thread Node Value)} (h : s.OnePopper popper list)
    (hPopper : ∀ t, .callTryPop t ∈ actions → t = popper)
    (hExec : exec StackSystem.step s actions = some s') : ∃ list', s'.OnePopper popper list' := by
  induction actions generalizing s list with
  | nil =>
      cases hExec
      exact ⟨list, h⟩
  | cons action later ih =>
      rw [exec] at hExec
      split at hExec
      · rename_i next hNext
        obtain ⟨list', h'⟩ := h.step (fun t hCall => hPopper t (hCall ▸ List.mem_cons_self)) hNext
        exact ih h' (fun t hMem => hPopper t (List.mem_cons_of_mem action hMem)) hExec
      · cases hExec

/-- A push that no other thread disturbs. -/
theorem StackSystem.OnePopper.pushAlone {newNode : Node} (h : s.OnePopper popper list)
    (inputData : Value) (hIdle : s.threads t = .idle) (hFresh : newNode ∉ s.stack.rented)
    (hRoom : s.stack.full = false) :
    ∃ list', (s.pushAlone t newNode inputData).OnePopper popper list' := by
  refine h.of_exec ?_ (StackSystem.exec_pushAlone inputData hIdle hFresh hRoom)
  intro t' hMem
  simp at hMem

end Runs

end NfNetwork.Collections
