import NfNetwork.Collections.StackShape

/-! What one step does to the list of the stack. The abstract stack holds the values of
the listed nodes: an exchange that pushes or pops is where the operation takes effect. -/
namespace NfNetwork.Collections

open Machinery

variable {Thread Node Value : Type}

section Frames

variable {stack stack' : LockFreeStack Node Value} {pc : StackPc Node Value}

/-- Others may write nodes that this thread does not have. -/
theorem StackPc.Ready.frame (h : pc.Ready stack)
    (hSame : ∀ n ∈ pc.hand, stack'.next n = stack.next n ∧ stack'.data n = stack.data n) :
    pc.Ready stack' := by
  cases pc with
  | idle => trivial
  | crashed => exact h
  | push inputData pc =>
      cases pc with
      | loadUID n | loadNode n uid | storeNext n snapshotHead =>
          exact (hSame n (Multiset.mem_singleton_self n)).2.trans h
      | compareExchange n snapshotHead =>
          obtain ⟨hNext, hData⟩ := hSame n (Multiset.mem_singleton_self n)
          exact ⟨hData.trans h.1, hNext.trans h.2⟩
      | _ => trivial
  | tryPop pc =>
      cases pc with
      | loadNext snapshotHead | compareExchange snapshotHead next => exact h
      | _ => trivial

theorem StackPc.phase_frame (hSame : ∀ n ∈ pc.hand, stack'.data n = stack.data n) :
    pc.phase stack' = pc.phase stack := by
  cases pc with
  | idle | crashed => rfl
  | push inputData pc => cases pc <;> rfl
  | tryPop pc =>
      cases pc with
      | loadData n => exact congrArg StackPhase.hasPopped (hSame n (Multiset.mem_singleton_self n))
      | _ => rfl

variable [DecidableEq Node] {a : StackAdvance Node Value} {n : Node}

/-- A step writes no node but its thread's. -/
theorem StackPc.Moves.frame (h : pc.Moves stack a) (hOther : n ∉ pc.hand) :
    a.stack.next n = stack.next n ∧ a.stack.data n = stack.data n := by
  cases h with
  | quiet _ hNodes => simp only [LockFreeStack.next, LockFreeStack.data, hNodes, and_self]
  | @storeData inputData m =>
      have hApart : n ≠ m := fun hSame => hOther (Multiset.mem_singleton.mpr hSame)
      rw [stack.storeData_next, stack.storeData_data]
      exact ⟨rfl, Function.update_of_ne hApart ..⟩
  | @storeNext inputData m snapshotHead =>
      have hApart : n ≠ m := fun hSame => hOther (Multiset.mem_singleton.mpr hSame)
      rw [stack.storeNext_next, stack.storeNext_data]
      exact ⟨Function.update_of_ne hApart .., rfl⟩
  | rent | push | pop | giveBack => exact ⟨rfl, rfl⟩

/-- A step leaves `mHead` as it is or gives it the next tag. -/
theorem StackPc.Moves.head (h : pc.Moves stack a) :
    a.stack.mHead = stack.mHead ∨ a.stack.mHead.UID = stack.mHead.UID + 1 := by
  cases h with
  | quiet hHead => exact .inl hHead
  | rent | storeData | storeNext | giveBack => exact .inl rfl
  | push | pop => exact .inr rfl

end Frames

/-- The nodes and the values of the stack, and what the threads have done. -/
structure StackSystem.Shaped [Fintype Thread] [DecidableEq Thread]
    (s : StackSystem Thread Node Value) (list : List Node) : Prop where
  linked : s.stack.Linked list
  nodup : s.stack.rented.Nodup
  places : s.stack.rented = list + s.hands
  lifo : Lifo s.history (list.map s.stack.data)
  ready : ∀ t, (s.threads t).Ready s.stack
  calls : ∀ t, StackCalls (marksOf t s.history) ((s.threads t).phase s.stack)

section Places

variable [Fintype Thread] [DecidableEq Thread] {s : StackSystem Thread Node Value} {list : List Node}
  {t t' : Thread} {n : Node}

/-- The node in a thread's hands is in no other place. -/
theorem StackSystem.Shaped.hand_apart (h : s.Shaped list) (hHand : n ∈ (s.threads t).hand) :
    n ∉ list ∧ n ∉ crewOthers StackPc.hand s.threads t := by
  have hNodup := h.nodup
  rw [h.places, StackSystem.hands, crewTotal_split _ _ t] at hNodup
  obtain ⟨_, hHands, hList⟩ := Multiset.nodup_add.mp hNodup
  refine ⟨fun hMem => ?_, fun hMem => ?_⟩
  · exact Multiset.disjoint_left.mp hList (Multiset.mem_coe.mpr hMem)
      (Multiset.mem_add.mpr (.inl hHand))
  · exact Multiset.disjoint_left.mp (Multiset.nodup_add.mp hHands).2.2 hHand hMem

/-- The first node of the list. -/
theorem StackSystem.Shaped.head_mem (h : s.Shaped list) (hHead : s.stack.mHead.Node = some n) :
    ∃ later, list = n :: later := by
  have hLinked := h.linked
  rw [LockFreeStack.Linked, hHead] at hLinked
  obtain ⟨later, rfl, _⟩ := hLinked.eq_cons
  exact ⟨later, rfl⟩

/-- The rented nodes, with the moving thread apart. -/
theorem StackSystem.Shaped.places_split (h : s.Shaped list) (t : Thread) :
    s.stack.rented = list + ((s.threads t).hand + crewOthers StackPc.hand s.threads t) := by
  rw [h.places, StackSystem.hands, crewTotal_split _ _ t]

/-- A call takes nothing. -/
theorem StackSystem.Shaped.call {pc : StackPc Node Value} {mark : StackMark Value}
    (h : s.Shaped list) (hIdle : s.threads t = .idle) (hHand : pc.hand = 0) (hReady : pc.Ready s.stack)
    (hMark : mark.noEffect = true) (hTurn : StackTurn .idle (some mark) (pc.phase s.stack)) :
    (s.advance t ⟨s.stack, pc, some mark⟩).Shaped list := by
  have hOwn := h.calls t
  rw [hIdle] at hOwn
  refine ⟨h.linked, h.nodup, ?_, h.lifo.other hMark, ?_, ?_⟩
  · have hSame : pc.hand = (s.threads t).hand := by rw [hIdle, hHand]; rfl
    rw [StackSystem.hands, StackSystem.advance, crewTotal_same hSame]
    exact h.places
  · exact forall_update h.ready hReady fun t' _ hOther => hOther
  · intro t'
    rw [StackSystem.advance]
    dsimp only
    by_cases hSame : t' = t
    · subst hSame
      rw [Function.update_self, marksOf_append_self]
      exact hOwn.turn hTurn
    · rw [Function.update_of_ne hSame, marksOf_append_other hSame]
      exact h.calls t'

variable [DecidableEq Node] {a : StackAdvance Node Value} {fresh : Option Node}

/-- The listed nodes stay as they are. -/
theorem StackSystem.Shaped.list_frame (h : s.Shaped list) (hMoves : (s.threads t).Moves s.stack a)
    (hMem : n ∈ list) : a.stack.next n = s.stack.next n ∧ a.stack.data n = s.stack.data n :=
  hMoves.frame fun hHand => (h.hand_apart hHand).1 hMem

theorem StackSystem.Shaped.map_data (h : s.Shaped list) (hMoves : (s.threads t).Moves s.stack a) :
    list.map a.stack.data = list.map s.stack.data :=
  List.map_congr_left fun _ hMem => (h.list_frame hMoves hMem).2

/-- The nodes that others have stay as they are. -/
theorem StackSystem.Shaped.others_frame (h : s.Shaped list)
    (hMoves : (s.threads t).Moves s.stack a) (hOther : t' ≠ t) (hHand : n ∈ (s.threads t').hand) :
    a.stack.next n = s.stack.next n ∧ a.stack.data n = s.stack.data n :=
  hMoves.frame fun hMine => (h.hand_apart hMine).2 (mem_crewOthers hOther hHand)

/-- What the threads have and did, after a step of one of them. -/
theorem StackSystem.Shaped.advance (list' : List Node) (h : s.Shaped list)
    (hAdmitted : (s.threads t).admitted = true → s.stack.mHead.Node ≠ none)
    (hStep : (s.threads t).step s.stack fresh = some a)
    (hLinked : a.stack.Linked list') (hNodup : a.stack.rented.Nodup)
    (hPlaces : a.stack.rented = list' + (a.pc.hand + crewOthers StackPc.hand s.threads t))
    (hLifo : Lifo (s.history ++ a.mark.toList.map (Prod.mk t)) (list'.map a.stack.data)) :
    (s.advance t a).Shaped list' := by
  have hAlive := StackPc.step_alive (h.ready t) hAdmitted hStep
  have hMoves := StackPc.moves hStep hAlive
  refine ⟨hLinked, hNodup, ?_, hLifo, ?_, ?_⟩
  · rw [StackSystem.hands, StackSystem.advance, crewTotal_update]
    exact hPlaces
  · refine forall_update h.ready (StackPc.step_ready (h.ready t) hAdmitted hStep) ?_
    intro t' hOther hReady
    exact hReady.frame fun n hHand => h.others_frame hMoves hOther hHand
  · intro t'
    rw [StackSystem.advance]
    dsimp only
    by_cases hSame : t' = t
    · subst hSame
      rw [Function.update_self, marksOf_append_self]
      exact (h.calls t').turn (StackPc.step_turn hStep hAlive)
    · rw [Function.update_of_ne hSame, marksOf_append_other hSame,
        StackPc.phase_frame fun n hHand => (h.others_frame hMoves hSame hHand).2]
      exact h.calls t'

/-- One step keeps every node in one place and the list in step with its effects. -/
theorem StackSystem.Shaped.run (h : s.Shaped list)
    (hAdmitted : (s.threads t).admitted = true → s.stack.mHead.Node ≠ none)
    (hReads : (s.threads t).Reads s.stack) (hStep : (s.threads t).step s.stack fresh = some a) :
    ∃ list', (s.advance t a).Shaped list' ∧
      list'.length + ((s.threads t).takes s.stack).toNat =
        list.length + ((s.threads t).pushes s.stack).toNat ∧
      ((s.threads t).takes s.stack = false → list ⊆ list') := by
  have hAlive := StackPc.step_alive (h.ready t) hAdmitted hStep
  have hMoves := StackPc.moves hStep hAlive
  have hMap := h.map_data hMoves
  have hNext := fun n hMem => (h.list_frame hMoves (n := n) hMem).1
  have hPlaces := h.places_split t
  have hReady := h.ready t
  have hAdvance := fun list' => h.advance list' hAdmitted hStep
  generalize hPc : s.threads t = pc at *
  cases hMoves with
  | quiet hHead hNodes hRented hHand hTakes hPushes hMark =>
      refine ⟨list, hAdvance list ?_ ?_ ?_ ?_, by rw [hTakes, hPushes], fun _ => List.Subset.refl _⟩
      · rw [LockFreeStack.Linked, hHead]
        exact h.linked.congr hNext
      · rw [hRented]
        exact h.nodup
      · rw [hRented, hHand]
        exact hPlaces
      · rw [hMap]
        exact h.lifo.others hMark
  | @rent inputData n hFresh =>
      refine ⟨list, hAdvance list (h.linked.congr hNext) ?_ ?_ ?_, rfl, fun _ => List.Subset.refl _⟩
      · exact Multiset.nodup_cons.mpr ⟨hFresh, h.nodup⟩
      · simp only [StackPc.hand, ← Multiset.singleton_add, hPlaces]
        abel
      · rw [hMap]
        exact h.lifo.others (by simp)
  | storeData =>
      refine ⟨list, hAdvance list (h.linked.congr hNext) h.nodup hPlaces ?_, rfl,
        fun _ => List.Subset.refl _⟩
      rw [hMap]
      exact h.lifo.others (by simp)
  | storeNext =>
      refine ⟨list, hAdvance list (h.linked.congr hNext) h.nodup hPlaces ?_, rfl,
        fun _ => List.Subset.refl _⟩
      rw [hMap]
      exact h.lifo.others (by simp)
  | @push inputData n =>
      obtain ⟨rfl, hBehind⟩ := hReady
      refine ⟨n :: list, hAdvance (n :: list) ⟨rfl, ?_⟩ h.nodup ?_ ?_, ?_,
        fun _ => List.subset_cons_self n list⟩
      · have hLinked := h.linked
        rw [LockFreeStack.Linked, ← hBehind] at hLinked
        exact hLinked
      · simp only [StackPc.hand, ← Multiset.cons_coe, ← Multiset.singleton_add, hPlaces]
        abel
      · rw [List.map_cons, hMap]
        exact h.lifo.push
      · simp [StackPc.takes, StackPc.pushes]
  | @pop n next hHead =>
      obtain ⟨later, rfl⟩ := h.head_mem hHead
      have hRead : next = s.stack.next n := hReads rfl n hHead
      refine ⟨later, hAdvance later ?_ h.nodup ?_ ?_, ?_, ?_⟩
      · rw [LockFreeStack.Linked, hRead]
        exact h.linked.2
      · simp only [StackPc.hand, ← Multiset.cons_coe, ← Multiset.singleton_add, hPlaces]
        abel
      · exact h.lifo.pop
      · simp [StackPc.takes, StackPc.pushes]
      · intro hNot
        simp [StackPc.takes] at hNot
  | @giveBack n outputData =>
      refine ⟨list, hAdvance list (h.linked.congr hNext) (h.nodup.erase n) ?_ ?_, rfl,
        fun _ => List.Subset.refl _⟩
      · simp only [StackPc.hand] at hPlaces ⊢
        have hFront : s.stack.rented = n ::ₘ (list + crewOthers StackPc.hand s.threads t) := by
          rw [hPlaces, ← Multiset.singleton_add]
          abel
        rw [hFront, Multiset.erase_cons_head, zero_add]
      · rw [hMap]
        exact h.lifo.others (by simp)

end Places

end NfNetwork.Collections
