import NfNetwork.Collections.StackPopper
import NfNetwork.Net.SessionManager
import Mathlib.Data.Fintype.Basic

/-! Every session of the pool is in the stack of unused sessions, live, or held by one
thread. So the stack has room for each session that comes back, unless a `TryPop` that
found it empty has taken `mUsedSize` below zero and `Push` takes that for full. -/
namespace NfNetwork.Net

open Machinery Collections

variable {Thread Node : Type} {poolSize : Nat}

section Sessions

/-- The code that `NewSessionOrNull` and `TryReleaseSession` run on a session. -/
def SlotPc.managed : SlotPc → Bool
  | .init _ | .countConnected | .checkReleased none | .tryRelease none | .release none _
  | .finishSending (.release none) _ => true
  | _ => false

/-- The session is not live and not in the stack. -/
def SlotPc.holdsSlot : SlotPc → Bool
  | .init _ | .finishSending (.release none) _ => true
  | .release none .countDisconnected => false
  | .release none _ => true
  | _ => false

def ManagerPc.hand (stack : LockFreeStack Node (Fin poolSize)) :
    ManagerPc Node poolSize → Multiset (Fin poolSize)
  | .unused pc => (pc.phase stack).hand
  | .on k pc => if pc.holdsSlot then {k} else 0
  | .outOfMemory k => {k}
  | _ => 0

/-- In the manager's code, and not out of it with a `logic_error`. -/
def ManagerPc.Sane : ManagerPc Node poolSize → Prop
  | .on _ pc => pc.managed = true
  | .threw => False
  | _ => True

/-- A live session counts once. -/
def Slot.live (slot : Slot) (k : Fin poolSize) : Multiset (Fin poolSize) :=
  if slot.session.isReleased then 0 else {k}

variable {slot : Slot} {pc : SlotPc} {e : Effect} {stack : LockFreeStack Node (Fin poolSize)}
  {k : Fin poolSize}

/-- What a step in the code of a session comes to. -/
structure SlotPc.Keeps (slot : Slot) (pc : SlotPc) (e : Effect) (stack : LockFreeStack Node (Fin poolSize))
    (k : Fin poolSize) (next : ManagerPc Node poolSize) : Prop where
  sane : next.Sane
  outside : next.stackPc = .idle
  place : next.hand stack + e.slot.live k = (ManagerPc.on k pc).hand stack + slot.live k

attribute [local simp] ManagerPc.follow ManagerPc.hand ManagerPc.stackPc ManagerPc.Sane Slot.live
  SlotPc.managed SlotPc.holdsSlot

/-- A session is held while it is released. Its thread goes on in this code or returns,
and the session stays in one place. -/
theorem SlotPc.step_keeps (hManaged : pc.managed = true) (hPush : pc ≠ .release none .push)
    (hHeld : pc.holdsSlot = true → slot.session.isReleased = true) (hStep : pc.step slot .ok = some e) :
    pc.Keeps slot e stack k (.follow k e.next) := by
  cases pc with
  | countConnected =>
      cases hStep
      exact ⟨trivial, rfl, rfl⟩
  | init pc =>
      have hReleased := hHeld rfl
      cases pc
      all_goals simp only [SlotPc.step, InitPc.step, goto, update, hReleased] at hStep
      all_goals repeat' split at hStep
      all_goals cases hStep
      all_goals constructor
      all_goals simp_all
  | release id pc =>
      cases id with
      | some id => cases hManaged
      | none =>
          cases pc
          all_goals simp only [SlotPc.step, ReleasePc.step, goto, update] at hStep
          all_goals repeat' split at hStep
          all_goals cases hStep
          all_goals constructor
          all_goals simp_all
  | finishSending caller pc =>
      obtain ⟨_ | id⟩ | _ := caller
      · cases pc
        all_goals simp only [SlotPc.step, FinishPc.step, goto, update] at hStep
        all_goals repeat' split at hStep
        all_goals cases hStep
        all_goals constructor
        all_goals simp_all
      · cases hManaged
      · cases hManaged
  | checkReleased id | tryRelease id =>
      cases id with
      | some id => cases hManaged
      | none =>
          simp only [SlotPc.step, goto] at hStep
          repeat' split at hStep
          all_goals cases hStep
          all_goals constructor
          all_goals simp_all
  | _ => cases hManaged

end Sessions

section Results

variable {stack : LockFreeStack Node (Fin poolSize)} {pc : StackPc Node (Fin poolSize)}
  {phase : StackPhase (Fin poolSize)} {mark : Option (StackMark (Fin poolSize))}

/-- A live thread without a call in progress is outside. -/
theorem idle_of_phase (hPhase : pc.phase stack = .idle) (hAlive : pc ≠ .crashed) : pc = .idle := by
  cases pc with
  | idle => rfl
  | crashed => exact absurd rfl hAlive
  | push inputData pc => cases pc <;> cases hPhase
  | tryPop pc => cases pc <;> cases hPhase

/-- The session in a thread's hand is read off its own node. -/
theorem ManagerPc.hand_frame {stack' : LockFreeStack Node (Fin poolSize)}
    {pc : ManagerPc Node poolSize} (hSame : ∀ n ∈ pc.stackPc.hand, stack'.data n = stack.data n) :
    pc.hand stack' = pc.hand stack := by
  cases pc with
  | unused pc => exact congrArg StackPhase.hand (StackPc.phase_frame hSame)
  | _ => rfl

/-- What an operation returns is in the hands of its caller. -/
theorem ManagerPc.resume_hand (hTurn : StackTurn phase mark (pc.phase stack)) (hAlive : pc ≠ .crashed)
    (hNotFull : ∀ k, mark ≠ some (.full k)) :
    (ManagerPc.resume pc mark).hand stack = (pc.phase stack).hand + handedBack mark := by
  generalize hAfter : pc.phase stack = after at hTurn
  cases hTurn with
  | full => exact absurd rfl (hNotFull _)
  | pushed | threw | popped | empty =>
      obtain rfl := idle_of_phase hAfter hAlive
      rfl
  | stay | callPush | push | callTryPop | pop =>
      rw [← hAfter]
      cases pc <;> exact (add_zero _).symm

/-- A push that is not refused leaves no thread at `threw`. -/
theorem ManagerPc.resume_sane (hNotFull : ∀ k, mark ≠ some (.full k)) :
    (ManagerPc.resume pc mark : ManagerPc Node poolSize).Sane := by
  unfold ManagerPc.resume
  split
  case h_4 k => exact absurd rfl (hNotFull k)
  all_goals trivial

variable [DecidableEq Node] {a : StackAdvance Node (Fin poolSize)} {fresh : Option Node}

/-- Only the comparison of `Push` finds the stack full. -/
theorem full_of_step {k : Fin poolSize} (hStep : pc.step stack fresh = some a)
    (hMark : a.mark = some (.full k)) : pc = .push k .checkCapacity ∧ stack.full = true := by
  cases pc with
  | idle | crashed => cases hStep
  | push inputData pc =>
      cases pc
      all_goals simp only [StackPc.step, PushPc.step] at hStep
      all_goals repeat' split at hStep
      all_goals cases hStep
      all_goals simp_all
  | tryPop pc =>
      cases pc
      all_goals simp only [StackPc.step, PopPc.step] at hStep
      all_goals repeat' split at hStep
      all_goals cases hStep
      all_goals simp at hMark

/-- No step of the stack changes its capacity. -/
theorem mMaxCapacity_of_step (hStep : pc.step stack fresh = some a) :
    a.stack.mMaxCapacity = stack.mMaxCapacity := by
  cases pc with
  | idle | crashed => cases hStep
  | push inputData pc =>
      cases pc
      all_goals simp only [StackPc.step, PushPc.step] at hStep
      all_goals repeat' split at hStep
      all_goals cases hStep
      all_goals simp_all [LockFreeStack.storeData, LockFreeStack.storeNext]
  | tryPop pc =>
      cases pc
      all_goals simp only [StackPc.step, PopPc.step] at hStep
      all_goals repeat' split at hStep
      all_goals cases hStep
      all_goals simp_all

/-- A step passes nothing in; only calls do. -/
theorem passedIn_of_turn (hTurn : StackTurn (pc.phase stack) mark phase)
    (hStep : pc.step stack fresh = some a) : passedIn mark = 0 := by
  generalize hBefore : pc.phase stack = before at hTurn
  cases hTurn with
  | callPush =>
      cases pc with
      | idle | crashed => cases hStep
      | push inputData pc => cases pc <;> cases hBefore
      | tryPop pc => cases pc <;> cases hBefore
  | _ => rfl

end Results

namespace NetSessionManager

/-- The manager's stack with its callers. -/
def view (s : NetSessionManager Thread Node poolSize) : StackSystem Thread Node (Fin poolSize) :=
  ⟨s.mUnusedSession, ManagerPc.stackPc ∘ s.threads, s.history⟩

/-- The sessions that threads hold. -/
def hands [Fintype Thread] (s : NetSessionManager Thread Node poolSize) : Multiset (Fin poolSize) :=
  crewTotal (ManagerPc.hand s.mUnusedSession) s.threads

/-- The live sessions. -/
def live (s : NetSessionManager Thread Node poolSize) : Multiset (Fin poolSize) :=
  crewTotal id fun k => (s.mSessionPool k).live k

/-- The sessions in the stack, in the order in which they will be popped. -/
def unused (s : NetSessionManager Thread Node poolSize) (list : List Node) : List (Fin poolSize) :=
  list.map s.mUnusedSession.data

/-- Every session is in one place, and no thread has failed. -/
structure Placed [Fintype Thread] [DecidableEq Thread] (s : NetSessionManager Thread Node poolSize)
    (accept : Thread) (list : List Node) : Prop where
  stack : s.view.OnePopper accept list
  places : (Finset.univ : Finset (Fin poolSize)).val = s.unused list + s.hands + s.live
  capacity : s.mUnusedSession.mMaxCapacity = poolSize
  sane : ∀ t, (s.threads t).Sane
  accepted : ∀ t k, (t, .full k) ∉ s.history

/-- The invariant of a run. -/
def Holds [Fintype Thread] [DecidableEq Thread] (accept : Thread)
    (s : NetSessionManager Thread Node poolSize) : Prop := ∃ list, s.Placed accept list

/-- What the manager promises: no `Push` of `TryReleaseSession` fails. -/
structure GivesBack [Fintype Thread] (s : NetSessionManager Thread Node poolSize) : Prop where
  notThrew : ∀ t, s.threads t ≠ .threw
  accepted : ∀ t k, (t, .full k) ∉ s.history
  /-- Every session is in the stack, held by one thread, or live. -/
  places : ∃ list, s.mUnusedSession.Linked list ∧
    (Finset.univ : Finset (Fin poolSize)).val = s.unused list + s.hands + s.live
  /-- A released session that no thread holds can be popped. -/
  reusable : ∀ k, (s.mSessionPool k).session.isReleased = true →
    (∀ t, k ∉ (s.threads t).hand s.mUnusedSession) →
    ∃ list, s.mUnusedSession.Linked list ∧ k ∈ s.unused list
  /-- `mUsedSize` lets as many poppers in while no operation of the stack is in progress. -/
  counted : (∀ t, (s.threads t).stackPc = .idle) →
    ∀ list, s.mUnusedSession.Linked list → s.mUnusedSession.mUsedSize = list.length

section Steps

variable {s : NetSessionManager Thread Node poolSize} {k : Fin poolSize}

/-- The number of live sessions after one slot has changed. -/
theorem live_update {s s' : NetSessionManager Thread Node poolSize} {slot : Slot}
    (h : s'.mSessionPool = Function.update s.mSessionPool k slot) :
    s'.live + (s.mSessionPool k).live k = s.live + slot.live k := by
  have hUpdate : (fun k' => (s'.mSessionPool k').live k') =
      Function.update (fun k' => (s.mSessionPool k').live k') k (slot.live k) := by
    funext k'
    rw [h]
    by_cases hSame : k' = k
    · subst hSame
      rw [Function.update_self, Function.update_self]
    · rw [Function.update_of_ne hSame, Function.update_of_ne hSame]
  rw [live, live, hUpdate, crewTotal_update, crewTotal_split id _ k]
  simp only [id]
  abel

variable [DecidableEq Thread] {accept t : Thread} {list : List Node}

omit [DecidableEq Thread] in
/-- No push has been refused so far, and this one was not. -/
theorem accepted_append {history : List (Thread × StackMark (Fin poolSize))}
    {mark : Option (StackMark (Fin poolSize))} (h : ∀ t k, (t, .full k) ∉ history)
    (hMark : ∀ k, mark ≠ some (.full k)) :
    ∀ t' k, (t', .full k) ∉ history ++ mark.toList.map (Prod.mk t) := by
  intro t' k hMem
  cases List.mem_append.mp hMem with
  | inl hBefore => exact h t' k hBefore
  | inr hLast =>
      obtain ⟨m, hm, hSame⟩ := List.mem_map.mp hLast
      cases hSame
      exact hMark k (Option.mem_toList.mp hm)

/-- To the stack a step of the manager is one of that thread. -/
theorem view_threads (s : NetSessionManager Thread Node poolSize) (t : Thread)
    (pc : ManagerPc Node poolSize) : ManagerPc.stackPc ∘ Function.update s.threads t pc =
      Function.update (ManagerPc.stackPc ∘ s.threads) t pc.stackPc := Function.comp_update ..

/-- Or none, if its place in the stack's code stays the same. -/
theorem view_same {pc : ManagerPc Node poolSize} (h : pc.stackPc = (s.threads t).stackPc) :
    ManagerPc.stackPc ∘ Function.update s.threads t pc = ManagerPc.stackPc ∘ s.threads := by
  rw [view_threads, h]
  exact Function.update_eq_self t _

/-- A step in the stack's code is a step of the stack. -/
theorem view_advance (a : StackAdvance Node (Fin poolSize)) :
    (s.advance t a).view = s.view.advance t a := by
  rw [view, advance, view_threads, ManagerPc.resume_stackPc]
  rfl

variable [Fintype Thread]

/-- A held session is released. -/
theorem Placed.released (h : s.Placed accept list)
    (hHand : k ∈ (s.threads t).hand s.mUnusedSession) :
    (s.mSessionPool k).session.isReleased = true := by
  have hNodup := (Finset.univ : Finset (Fin poolSize)).nodup
  rw [h.places] at hNodup
  have hApart := (Multiset.nodup_add.mp hNodup).2.2
  have hHands : k ∈ s.hands := by
    rw [hands, crewTotal_split _ _ t]
    exact Multiset.mem_add.mpr (.inl hHand)
  by_contra hLive
  apply Multiset.disjoint_left.mp hApart (Multiset.mem_add.mpr (.inr hHands))
  rw [live, crewTotal_split _ _ k, Slot.live, if_neg hLive]
  exact Multiset.mem_add.mpr (.inl (Multiset.mem_singleton_self k))

/-- There are no more free sessions than there are sessions. -/
theorem Placed.length_le (h : s.Placed accept list) : list.length ≤ poolSize := by
  have hCard := congrArg Multiset.card h.places
  simp only [unused, Multiset.card_add, Multiset.coe_card, List.length_map, Finset.card_val,
    Finset.card_univ, Fintype.card_fin] at hCard
  omega

/-- `Push` finds room while `mUsedSize` is not negative. -/
theorem Placed.room (h : s.Placed accept list) (hSize : 0 ≤ s.mUnusedSession.mUsedSize) :
    s.mUnusedSession.full = false := by
  have hUsed : s.mUnusedSession.mUsedSize ≤ list.length := h.stack.counted.usedSize_le
  have hLength := h.length_le
  have hCapacity := h.capacity
  rw [LockFreeStack.full, decide_eq_false_iff_not]
  omega

/-- A session goes from one place to another while nobody else's moves. -/
theorem Placed.place {s' : NetSessionManager Thread Node poolSize} {list' : List Node}
    (h : s.Placed accept list) (t : Thread) (pc : ManagerPc Node poolSize)
    (hThreads : s'.threads = Function.update s.threads t pc)
    (hOthers : ∀ t', t' ≠ t → (s.threads t').hand s'.mUnusedSession =
      (s.threads t').hand s.mUnusedSession)
    (hMove : (s'.unused list' : Multiset (Fin poolSize)) + pc.hand s'.mUnusedSession + s'.live =
      s.unused list + (s.threads t).hand s.mUnusedSession + s.live) :
    (Finset.univ : Finset (Fin poolSize)).val = s'.unused list' + s'.hands + s'.live := by
  have hPlaces := h.places
  rw [hands, crewTotal_split _ _ t] at hPlaces
  rw [hands, hThreads, crewTotal_update, crewOthers_congr hOthers, hPlaces]
  generalize crewOthers (ManagerPc.hand s.mUnusedSession) s.threads t = others
  calc (s.unused list : Multiset (Fin poolSize)) + ((s.threads t).hand s.mUnusedSession + others) + s.live
      = s.unused list + (s.threads t).hand s.mUnusedSession + s.live + others := by abel
    _ = s'.unused list' + pc.hand s'.mUnusedSession + s'.live + others := by rw [hMove]
    _ = s'.unused list' + (pc.hand s'.mUnusedSession + others) + s'.live := by abel

/-- The thread's new place keeps what holds of every thread's. -/
theorem Placed.sane_update {pc : ManagerPc Node poolSize} (h : s.Placed accept list)
    (hSane : pc.Sane) : ∀ t', (Function.update s.threads t pc t').Sane :=
  forall_update h.sane hSane fun _ _ hOther => hOther

/-- Call an operation of the stack. -/
theorem Placed.call {pc : StackPc Node (Fin poolSize)} {mark : StackMark (Fin poolSize)}
    (h : s.Placed accept list) (hOutside : (s.threads t).stackPc = .idle)
    (hCall : pc = .tryPop .decrementUsedSize ∧ mark = .callTryPop ∧ t = accept ∨
      ∃ k, pc = .push k .checkCapacity ∧ mark = .callPush k)
    (hHand : (pc.phase s.mUnusedSession).hand = (s.threads t).hand s.mUnusedSession) :
    (s.advance t ⟨s.mUnusedSession, pc, some mark⟩).Placed accept list := by
  have hResume : ManagerPc.resume pc (some mark) = (.unused pc : ManagerPc Node poolSize) := by
    obtain ⟨rfl, rfl, _⟩ | ⟨k, rfl, rfl⟩ := hCall <;> rfl
  refine ⟨?_, ?_, h.capacity, ?_, ?_⟩
  · rw [view_advance]
    exact h.stack.call hOutside hCall
  · refine h.place t (.unused pc) ?_ (fun _ _ => rfl) ?_
    · rw [advance, hResume]
    · rw [← hHand]
      rfl
  · rw [advance, hResume]
    exact h.sane_update trivial
  · refine accepted_append h.accepted ?_
    obtain ⟨_, rfl, _⟩ | ⟨k, _, rfl⟩ := hCall <;> simp

/-- Go on in the code of a session. -/
theorem Placed.follow {pc : SlotPc} {e : Effect} (h : s.Placed accept list)
    (hPc : s.threads t = .on k pc) (hPush : pc ≠ .release none .push)
    (hStep : pc.step (s.mSessionPool k) .ok = some e) : (s.apply t k e).Placed accept list := by
  have hManaged := h.sane t
  rw [hPc] at hManaged
  have hHeld : pc.holdsSlot = true → (s.mSessionPool k).session.isReleased = true := by
    intro hHolds
    refine h.released (t := t) ?_
    rw [hPc, ManagerPc.hand, if_pos hHolds]
    exact Multiset.mem_singleton_self k
  have hKeeps : pc.Keeps _ e s.mUnusedSession k _ := SlotPc.step_keeps hManaged hPush hHeld hStep
  refine ⟨?_, ?_, h.capacity, h.sane_update hKeeps.sane, h.accepted⟩
  · have hView : (s.apply t k e).view = s.view := by
      rw [view, apply, view_same (hKeeps.outside.trans (congrArg ManagerPc.stackPc hPc).symm)]
      rfl
    rw [hView]
    exact h.stack
  · refine h.place t _ rfl (fun _ _ => rfl) ?_
    have hLive : (s.apply t k e).live + (s.mSessionPool k).live k = s.live + e.slot.live k :=
      live_update rfl
    have hPlace := hKeeps.place
    rw [hPc]
    apply add_right_cancel (b := (s.mSessionPool k).live k)
    calc ((s.apply t k e).unused list : Multiset (Fin poolSize)) +
          (ManagerPc.follow k e.next).hand s.mUnusedSession + (s.apply t k e).live +
          (s.mSessionPool k).live k
        = s.unused list + (ManagerPc.follow k e.next).hand s.mUnusedSession +
          ((s.apply t k e).live + (s.mSessionPool k).live k) := add_assoc ..
      _ = s.unused list + ((ManagerPc.follow k e.next).hand s.mUnusedSession + e.slot.live k) +
          s.live := by rw [hLive]; abel
      _ = s.unused list + (ManagerPc.on k pc).hand s.mUnusedSession + s.live +
          (s.mSessionPool k).live k := by rw [hPlace]; abel

variable [DecidableEq Node] {s' : NetSessionManager Thread Node poolSize}

/-- Go on in an operation of the stack. -/
theorem Placed.run {pc : StackPc Node (Fin poolSize)} {a : StackAdvance Node (Fin poolSize)}
    {fresh : Option Node} (h : s.Placed accept list) (hPc : s.threads t = .unused pc)
    (hStep : pc.step s.mUnusedSession fresh = some a)
    (hNotFull : ∀ k, a.mark ≠ some (.full k)) : ∃ list', (s.advance t a).Placed accept list' := by
  have hThread : s.view.threads t = pc := congrArg ManagerPc.stackPc hPc
  have hRun : (s.view.threads t).step s.view.stack fresh = some a := by
    rw [hThread]
    exact hStep
  obtain ⟨hAlive, list', hStack⟩ := h.stack.run hRun
  have hMoves := StackPc.moves hRun hAlive
  have hTurn := StackPc.step_turn hRun hAlive
  have hPassed := passedIn_of_turn hTurn hRun
  have hValues := hTurn.moves h.stack.shaped.lifo hStack.shaped.lifo
  rw [hPassed, add_zero, hThread] at hValues
  have hHand := ManagerPc.resume_hand hTurn hAlive hNotFull
  refine ⟨list', ?_, ?_, (mMaxCapacity_of_step hStep).trans h.capacity,
    h.sane_update (ManagerPc.resume_sane hNotFull), accepted_append h.accepted hNotFull⟩
  · rw [view_advance]
    exact hStack
  · refine h.place t _ rfl ?_ ?_
    · intro t' hOther
      exact ManagerPc.hand_frame fun n hMine => (h.stack.shaped.others_frame hMoves hOther hMine).2
    · have hLive : (s.advance t a).live = s.live := rfl
      have hMine : (s.threads t).hand s.mUnusedSession = (pc.phase s.mUnusedSession).hand := by
        rw [hPc]
        rfl
      have hAfter : (ManagerPc.resume a.pc a.mark : ManagerPc Node poolSize).hand
          (s.advance t a).mUnusedSession = (a.pc.phase a.stack).hand + handedBack a.mark := hHand
      rw [hLive, hMine, hAfter, ← add_assoc]
      exact congrArg (· + s.live) hValues

/-- Each step puts the session that it moves where it belongs, and leaves the others. -/
theorem Holds.step {action : ManagerAction Thread Node poolSize} (h : s.Holds accept)
    (hGuard : s.Unhurried action) (hStep : s.step accept action = some s') : s'.Holds accept := by
  obtain ⟨list, h⟩ := h
  cases action with
  | newSessionOrNull =>
      simp only [NetSessionManager.step] at hStep
      split at hStep <;> cases hStep
      rename_i hIdle
      exact ⟨list, h.call (by rw [hIdle]; rfl) (.inl ⟨rfl, rfl, rfl⟩) (by rw [hIdle]; rfl)⟩
  | tryReleaseSession t k =>
      simp only [NetSessionManager.step] at hStep
      split at hStep <;> cases hStep
      rename_i hIdle
      refine ⟨list, ?_, ?_, h.capacity, h.sane_update rfl, h.accepted⟩
      · have hView : (s.goto t (.on k (.checkReleased none))).view = s.view := by
          rw [view, goto, view_same (by rw [hIdle]; rfl)]
          rfl
        rw [hView]
        exact h.stack
      · refine h.place t _ rfl (fun _ _ => rfl) ?_
        rw [hIdle]
        rfl
  | run t fresh =>
      simp only [NetSessionManager.step] at hStep
      split at hStep
      · rename_i pc hPc
        obtain ⟨a, hRun, rfl⟩ := Option.map_eq_some_iff.mp hStep
        refine h.run hPc hRun ?_
        intro k hMark
        obtain ⟨rfl, hFull⟩ := full_of_step hRun hMark
        rw [h.room (hGuard t fresh k rfl hPc)] at hFull
        cases hFull
      · rename_i k hPc
        cases hStep
        exact ⟨list, h.call (by rw [hPc]; rfl) (.inr ⟨k, rfl, rfl⟩) (by rw [hPc]; rfl)⟩
      · rename_i k pc hNotPush hPc
        obtain ⟨e, hEffect, rfl⟩ := Option.map_eq_some_iff.mp hStep
        refine ⟨list, h.follow hPc ?_ hEffect⟩
        rintro rfl
        exact hNotPush rfl
      · cases hStep
  | others k slot =>
      simp only [NetSessionManager.step] at hStep
      split at hStep <;> cases hStep
      rename_i hSame
      refine ⟨list, h.stack, ?_, h.capacity, h.sane, h.accepted⟩
      have hLive : NetSessionManager.live { s with
            mSessionPool := Function.update s.mSessionPool k slot } + (s.mSessionPool k).live k =
          s.live + slot.live k := live_update rfl
      have hSlot : slot.live k = (s.mSessionPool k).live k := by rw [Slot.live, hSame]; rfl
      rw [hSlot] at hLive
      have hPlaces := h.places
      rw [← add_right_cancel hLive] at hPlaces
      exact hPlaces

omit [DecidableEq Node] in
/-- So every push finds room, and every session is at one place. -/
theorem Placed.givesBack (h : s.Placed accept list) : s.GivesBack where
  notThrew t hThrew := by
    have hSane := h.sane t
    rw [hThrew] at hSane
    exact hSane
  accepted := h.accepted
  places := ⟨list, h.stack.shaped.linked, h.places⟩
  reusable k hReleased hNobody := by
    refine ⟨list, h.stack.shaped.linked, ?_⟩
    have hSomewhere : k ∈ (Finset.univ : Finset (Fin poolSize)).val := Finset.mem_univ k
    rw [h.places, Multiset.mem_add, Multiset.mem_add] at hSomewhere
    obtain (hUnused | hHands) | hLive := hSomewhere
    · exact hUnused
    · obtain ⟨t, _, hHand⟩ := Multiset.mem_sum.mp hHands
      exact absurd hHand (hNobody t)
    · rw [live, crewTotal] at hLive
      obtain ⟨k', _, hMem⟩ := Multiset.mem_sum.mp hLive
      rw [id, Slot.live] at hMem
      split at hMem
      · cases hMem
      · rename_i hNot
        obtain rfl := Multiset.mem_singleton.mp hMem
        exact absurd hReleased hNot
  counted hIdle list' hLinked := by
    obtain rfl := h.stack.shaped.linked.unique hLinked
    have hZero : ∀ kind : StackPc Node (Fin poolSize) → Bool, kind .idle = false →
        crewCount kind s.view.threads = 0 :=
      fun kind hKind => crewCount_eq_zero fun t => (congrArg kind (hIdle t)).trans hKind
    have hSize := h.stack.counted.usedSize
    rw [hZero _ rfl, hZero _ rfl, hZero _ rfl] at hSize
    change (list.length : Int) = s.mUnusedSession.mUsedSize + _ + _ + _ at hSize
    omega

end Steps

section Runs

variable [Fintype Thread] [DecidableEq Thread] [DecidableEq Node] {accept : Thread}
  {node : Fin poolSize ↪ Node} {nodes : Node → StackNode Node (Fin poolSize)}

/-- The pushes of `Init` all succeed, and put every session into the stack. -/
theorem initPushes_spec {s : StackSystem Thread Node (Fin poolSize)} {list : List Node}
    (node : Fin poolSize ↪ Node) (sessions : List (Fin poolSize)) (h : s.OnePopper accept list)
    (hIdle : s.threads accept = .idle) (hSize : 0 ≤ s.stack.mUsedSize)
    (hRoom : s.stack.mUsedSize + sessions.length ≤ s.stack.mMaxCapacity)
    (hFresh : ∀ k ∈ sessions, node k ∉ s.stack.rented) (hNodup : sessions.Nodup) :
    ∃ list', (initPushes accept node s sessions).OnePopper accept list' ∧
      (initPushes accept node s sessions).threads = s.threads ∧
      (initPushes accept node s sessions).stack.mMaxCapacity = s.stack.mMaxCapacity ∧
      (initPushes accept node s sessions).history = s.history ++ sessions.flatMap fun k =>
        [(accept, .callPush k), (accept, .push k), (accept, .pushed k)] := by
  induction sessions generalizing s list with
  | nil => exact ⟨list, h, rfl, rfl, (List.append_nil _).symm⟩
  | cons k sessions ih =>
      rw [List.length_cons] at hRoom
      have hNotFull : s.stack.full = false := by
        rw [LockFreeStack.full, decide_eq_false_iff_not]
        omega
      obtain ⟨list', h'⟩ := h.pushAlone k hIdle (hFresh k List.mem_cons_self) hNotFull
      obtain ⟨hApart, hNodup⟩ := List.nodup_cons.mp hNodup
      obtain ⟨list'', hStack, hThreads, hCapacity, hHistory⟩ := ih h' hIdle
        (by simp only [StackSystem.pushAlone]; omega)
        (by simp only [StackSystem.pushAlone, LockFreeStack.storeNext, LockFreeStack.storeData]; omega)
        (by
          intro m hm hMem
          obtain hSame | hBefore := Multiset.mem_cons.mp hMem
          · exact hApart (node.injective hSame ▸ hm)
          · exact hFresh m (List.mem_cons_of_mem k hm) hBefore)
        hNodup
      refine ⟨list'', hStack, hThreads, hCapacity, hHistory.trans ?_⟩
      rw [StackSystem.pushAlone, List.flatMap_cons, List.append_assoc]

omit [Fintype Thread] [DecidableEq Thread] [DecidableEq Node] in
/-- What `Init` pushes is every session once. -/
theorem initPushes_values (accept : Thread) (sessions : List (Fin poolSize)) :
    let history := sessions.flatMap fun k =>
      [(accept, .callPush k), (accept, StackMark.push k), (accept, .pushed k)]
    pushedValues history = sessions ∧ poppedValues history = [] := by
  induction sessions with
  | nil => exact ⟨rfl, rfl⟩
  | cons k sessions ih =>
      obtain ⟨hPushed, hPopped⟩ := ih
      exact ⟨congrArg (k :: ·) hPushed, hPopped⟩

/-- After `Init` all sessions are on the stack. -/
theorem Holds.start (accept : Thread) (node : Fin poolSize ↪ Node)
    (nodes : Node → StackNode Node (Fin poolSize)) :
    (NetSessionManager.start accept node nodes).Holds accept := by
  obtain ⟨first, hFirst⟩ := StackSystem.OnePopper.start accept poolSize nodes
  obtain ⟨list, hStack, hThreads, hCapacity, hHistory⟩ := initPushes_spec node
    (List.finRange poolSize) hFirst rfl (Int.le_refl 0) (by simp [StackSystem.start])
    (fun k _ => Multiset.notMem_zero _) (List.nodup_finRange poolSize)
  obtain ⟨hPushed, hPopped⟩ := initPushes_values accept (List.finRange poolSize)
  have hValues := hStack.shaped.lifo.conserves
  have hEmpty : (StackSystem.start poolSize nodes : StackSystem Thread _ _).history = [] := rfl
  rw [hHistory, hEmpty, List.nil_append, hPushed, hPopped, Multiset.coe_nil, zero_add] at hValues
  unfold NetSessionManager.start
  generalize initPushes accept node (.start poolSize nodes) (List.finRange poolSize) = unused at *
  obtain ⟨stack, threads, history⟩ := unused
  obtain rfl : threads = fun _ => .idle := hThreads
  refine ⟨list, hStack, ?_, hCapacity, fun _ => True.intro, ?_⟩
  · have hHands : crewTotal (ManagerPc.hand stack) (fun _ : Thread => .idle) = 0 :=
      crewTotal_eq_zero fun _ => rfl
    have hLive : crewTotal id (fun k : Fin poolSize => (⟨.new k, 0, 0⟩ : Slot).live k) = 0 :=
      crewTotal_eq_zero fun _ => rfl
    rw [hands, live, hHands, hLive, add_zero, add_zero]
    exact hValues
  · intro t k hMem
    obtain rfl : history = _ := hHistory
    obtain ⟨k', _, hEntry⟩ := List.mem_flatMap.mp hMem
    simp at hEntry

/-- In every run in which no `Push` compares `mUsedSize` while it is negative, every
session is given back. -/
theorem givesBack_of_reachable {s : NetSessionManager Thread Node poolSize}
    (h : Reachable (Takes (NetSessionManager.step accept)) NetSessionManager.Unhurried
      (NetSessionManager.start accept node nodes) s) : s.GivesBack := by
  have hHolds : s.Holds accept := h.invariant (Holds.start accept node nodes)
    fun _ hHolds hGuard hStep => hHolds.step hGuard hStep
  obtain ⟨list, hPlaced⟩ := hHolds
  exact hPlaced.givesBack

/-- The first session of a pool of one is accepted and released, up to its `Push`. -/
private def releaseLast : List (ManagerAction Bool Nat 1) :=
  List.flatten [.newSessionOrNull :: List.replicate 18 (.run false none),
    .tryReleaseSession true 0 :: List.replicate 12 (.run true none)]

/-- Meanwhile the next client finds no session: `TryPop` has taken `mUsedSize` below zero
when `Push` compares it. -/
theorem not_givesBack_of_exhausted : ¬ ∀ s : NetSessionManager Bool Nat 1,
    Reachable (Takes (NetSessionManager.step false)) (fun _ _ => True)
      (NetSessionManager.start false ⟨Fin.val, Fin.val_injective⟩ fun _ => ⟨none, 0⟩) s →
    ∀ t, s.threads t ≠ .threw := by
  intro h
  have hRun : (exec (NetSessionManager.step false)
      (NetSessionManager.start false ⟨Fin.val, Fin.val_injective⟩ fun _ => ⟨none, 0⟩)
      (releaseLast ++ [.newSessionOrNull, .run false none, .run true none])).map
      (fun s => decide (s.threads true = .threw)) = some true := by decide +kernel
  obtain ⟨s, hExec, hEnd⟩ := Option.map_eq_some_iff.mp hRun
  exact h s (reachable_of_exec hExec) true (of_decide_eq_true hEnd)

/-- No `Push` is about to compare a negative `mUsedSize`. -/
private def unhurried (s : NetSessionManager Bool Nat 1) (action : ManagerAction Bool Nat 1) : Bool :=
  match action with
  | .run t _ => match s.threads t with
    | .unused (.push _ .checkCapacity) => decide (0 ≤ s.mUnusedSession.mUsedSize)
    | _ => true
  | _ => true

/-- The session is released and accepted again. -/
theorem givesBack_of_reachable_acceptAgain : ∃ s : NetSessionManager Bool Nat 1, s.GivesBack ∧
    (true, .pushed 0) ∈ s.history ∧ s.threads false = .idle ∧
      (s.mSessionPool 0).session.isReleased = false := by
  have hRun : (exec (checked unhurried (NetSessionManager.step false))
      (NetSessionManager.start false ⟨Fin.val, Fin.val_injective⟩ fun _ => ⟨none, 0⟩)
      (List.flatten [releaseLast, List.replicate 9 (.run true (some 5)),
        .newSessionOrNull :: List.replicate 18 (.run false none)])).map
      (fun s => decide ((true, .pushed 0) ∈ s.history ∧ s.threads false = .idle ∧
        (s.mSessionPool 0).session.isReleased = false)) = some true := by decide +kernel
  obtain ⟨s, hExec, hEnd⟩ := Option.map_eq_some_iff.mp hRun
  have hGuarded : ∀ {s : NetSessionManager Bool Nat 1} {a : ManagerAction Bool Nat 1},
      unhurried s a = true → s.Unhurried a := by
    intro s a hCheck t fresh k hRunning hPush
    rw [hRunning, unhurried, hPush] at hCheck
    exact of_decide_eq_true hCheck
  exact ⟨s, givesBack_of_reachable (reachable_of_checked hGuarded hExec), of_decide_eq_true hEnd⟩

end Runs

end NetSessionManager

end NfNetwork.Net
