import NfNetwork.Machinery.Capacity
import NfNetwork.Collections.QueueExact

/-! How many elements a `LockFreeQueue` stores. `Enqueue` does not look at `mMaxCapacity`: the step that
links a node stores one more, whatever is stored. -/
namespace NfNetwork.Collections

open Machinery

variable {Thread Node Value : Type} [DecidableEq Node]

/-- Behind the link, on the way out of `Enqueue`. -/
def QueuePc.linked : QueuePc Node Value → Bool
  | .enqueue _ (.swingTail _ _) | .enqueue _ .incrementUsedSize => true
  | _ => false

/-- Behind the exchange of `mHead`, on the way out of `TryDequeue`. -/
def QueuePc.unlinked : QueuePc Node Value → Bool
  | .tryDequeue (.giveBack _ _) | .tryDequeue (.leave _) => true
  | _ => false

/-- The next step links the node of an `Enqueue`. -/
def QueuePc.links (queue : LockFreeQueue Node Value) : QueuePc Node Value → Bool
  | .enqueue _ (.link _ _ (some n)) => queue.next n = none
  | _ => false

theorem QueuePc.takes_of_links {queue : LockFreeQueue Node Value} {pc : QueuePc Node Value}
    (h : pc.links queue = true) : pc.takes queue = 0 := by
  cases pc with
  | enqueue v pc => cases pc <;> rfl
  | idle | tryDequeue | crashed => cases h

/-- What a step changes in the two counts. -/
theorem QueuePc.step_linked {queue : LockFreeQueue Node Value} {pc : QueuePc Node Value}
    {fresh : Option Node} {a : QueueAdvance Node Value} (hStep : pc.step queue fresh = some a) :
    a.pc.linked.toNat + (valueOf QueueMark.added a.mark).card = pc.linked.toNat + (pc.links queue).toNat ∧
      a.pc.unlinked.toNat + (valueOf QueueMark.taken a.mark).card =
        pc.unlinked.toNat + (pc.takes queue).card := by
  cases pc with
  | idle | crashed => cases hStep
  | enqueue v pc =>
      cases pc
      all_goals simp only [QueuePc.step, EnqueuePc.step, deref] at hStep
      all_goals repeat' split at hStep
      all_goals cases hStep
      all_goals simp_all [QueuePc.linked, QueuePc.unlinked, QueuePc.links, QueuePc.takes, valueOf,
        QueueMark.added, QueueMark.taken]
  | tryDequeue pc =>
      cases pc
      all_goals simp only [QueuePc.step, DequeuePc.step, deref] at hStep
      all_goals repeat' split at hStep
      all_goals cases hStep
      all_goals simp_all [QueuePc.linked, QueuePc.unlinked, QueuePc.links, QueuePc.takes, valueOf,
        QueueMark.added, QueueMark.taken]

/-- The counter against the links and the exchanges of `mHead`. -/
theorem QueuePc.step_usedSize {queue : LockFreeQueue Node Value} {pc : QueuePc Node Value}
    {fresh : Option Node} {a : QueueAdvance Node Value} (hStep : pc.step queue fresh = some a)
    (hAlive : a.pc ≠ .crashed) :
    a.queue.mUsedSize + a.pc.admitted.toNat + a.pc.refused.toNat + a.pc.linked.toNat +
        (pc.takes queue).card =
      queue.mUsedSize + pc.admitted.toNat + pc.refused.toNat + pc.linked.toNat +
        (pc.links queue).toNat := by
  cases pc with
  | idle | crashed => cases hStep
  | enqueue v pc =>
      cases pc
      all_goals simp only [QueuePc.step, EnqueuePc.step, deref] at hStep
      all_goals repeat' split at hStep
      all_goals cases hStep
      all_goals simp_all [QueuePc.admitted, QueuePc.refused, QueuePc.linked, QueuePc.links,
        QueuePc.takes, LockFreeQueue.storeData, LockFreeQueue.storeNext]
  | tryDequeue pc =>
      cases pc
      all_goals simp only [QueuePc.step, DequeuePc.step, deref] at hStep
      all_goals repeat' split at hStep
      all_goals cases hStep
      all_goals simp_all [QueuePc.admitted, QueuePc.refused, QueuePc.linked, QueuePc.links,
        QueuePc.takes]

namespace QueueSystem

variable [Fintype Thread] {s s' : QueueSystem Thread Node Value} {action : QueueAction Thread Node Value}

/-- The elements whose `Enqueue` has linked them and that no `TryDequeue` has taken. -/
def stored (s : QueueSystem Thread Node Value) : Int :=
  ((valuesOf QueueMark.added s.history).length + crewCount QueuePc.linked s.threads : Nat) -
    ((valuesOf QueueMark.taken s.history).length + crewCount QueuePc.unlinked s.threads : Nat)

/-- The action is the step with which an `Enqueue` links its node. -/
def Links (s : QueueSystem Thread Node Value) : QueueAction Thread Node Value → Prop
  | .run t _ => (s.threads t).links s.queue = true
  | _ => False

omit [DecidableEq Node] [Fintype Thread] in
theorem valuesOf_length (select : QueueMark Value → Option Value)
    (history : List (Thread × QueueMark Value)) (t : Thread) (mark : Option (QueueMark Value)) :
    (valuesOf select (history ++ mark.toList.map (Prod.mk t))).length =
      (valuesOf select history).length + (valueOf select mark).card := by
  have hValues := congrArg Multiset.card (valuesOf_concat select history t mark)
  rwa [Multiset.card_add, Multiset.coe_card, Multiset.coe_card] at hValues

omit [DecidableEq Node] in
theorem start_stored [DecidableEq Node] (dummyNode : Node) (nodes : Node → QueueNode Node Value) :
    (start dummyNode nodes : QueueSystem Thread Node Value).stored = 0 := by
  have hZero : ∀ kind : QueuePc Node Value → Bool, kind .idle = false →
      crewCount kind (fun _ : Thread => QueuePc.idle) = 0 :=
    fun kind hKind => crewCount_eq_zero fun _ => hKind
  simp [stored, start, valuesOf, hZero QueuePc.linked rfl, hZero QueuePc.unlinked rfl]

variable [DecidableEq Thread]

omit [DecidableEq Node] in
theorem advance_stored (s : QueueSystem Thread Node Value) (t : Thread) (a : QueueAdvance Node Value) :
    (s.advance t a).stored + (s.threads t).linked.toNat + a.pc.unlinked.toNat +
        (valueOf QueueMark.taken a.mark).card =
      s.stored + a.pc.linked.toNat + (s.threads t).unlinked.toNat +
        (valueOf QueueMark.added a.mark).card := by
  have hLinked := crewCount_update QueuePc.linked s.threads t a.pc
  have hUnlinked := crewCount_update QueuePc.unlinked s.threads t a.pc
  rw [stored, stored, advance, valuesOf_length, valuesOf_length]
  dsimp only
  omega

omit [DecidableEq Node] in
/-- What an idle thread calls stores nothing and takes nothing. -/
theorem call_stored {t : Thread} {a : QueueAdvance Node Value} (hIdle : s.threads t = .idle)
    (hLinked : a.pc.linked = false) (hAdded : valueOf QueueMark.added a.mark = 0) :
    (s.advance t a).stored ≤ s.stored := by
  have hStored := s.advance_stored t a
  rw [hIdle, hLinked, hAdded] at hStored
  simp only [QueuePc.linked, QueuePc.unlinked, Bool.toNat_false, Multiset.card_zero] at hStored
  omega

/-- Only a link stores an element, and it does not look at what is stored. -/
theorem grows :
    Grows (step : QueueSystem Thread Node Value → _ → Option (QueueSystem Thread Node Value)) stored Links where
  adds {s s' action} hStep hLinks := by
    cases action with
    | callEnqueue | callTryDequeue => cases hLinks
    | run t fresh =>
        obtain ⟨a, hRun, rfl⟩ := Option.map_eq_some_iff.mp hStep
        obtain ⟨hCount, hOut⟩ := QueuePc.step_linked hRun
        have hStored := s.advance_stored t a
        rw [Links] at hLinks
        rw [hLinks, Bool.toNat_true] at hCount
        rw [QueuePc.takes_of_links hLinks, Multiset.card_zero] at hOut
        omega
  others {s s' action} hStep hLinks := by
    cases action with
    | callEnqueue t v =>
        rw [step] at hStep
        split at hStep <;> cases hStep
        rename_i hIdle
        exact call_stored hIdle rfl rfl
    | callTryDequeue t =>
        rw [step] at hStep
        split at hStep <;> cases hStep
        rename_i hIdle
        exact call_stored hIdle rfl rfl
    | run t fresh =>
        obtain ⟨a, hRun, rfl⟩ := Option.map_eq_some_iff.mp hStep
        obtain ⟨hCount, hOut⟩ := QueuePc.step_linked hRun
        have hStored := s.advance_stored t a
        rw [Links, Bool.not_eq_true] at hLinks
        rw [hLinks, Bool.toNat_false] at hCount
        omega

/-- `mUsedSize` is what is stored, but for the calls that have not adjusted it yet. -/
def CountsStored (s : QueueSystem Thread Node Value) : Prop :=
  s.queue.mUsedSize + crewCount QueuePc.admitted s.threads + crewCount QueuePc.refused s.threads +
    crewCount QueuePc.linked s.threads = s.stored

theorem CountsStored.run {t : Thread} {fresh : Option Node} {a : QueueAdvance Node Value}
    (h : s.CountsStored) (hStep : (s.threads t).step s.queue fresh = some a) (hAlive : a.pc ≠ .crashed) :
    (s.advance t a).CountsStored := by
  have hAdmitted := crewCount_update QueuePc.admitted s.threads t a.pc
  have hRefused := crewCount_update QueuePc.refused s.threads t a.pc
  have hLinked := crewCount_update QueuePc.linked s.threads t a.pc
  have hStored := s.advance_stored t a
  obtain ⟨hCount, hOut⟩ := QueuePc.step_linked hStep
  have hUsed := QueuePc.step_usedSize hStep hAlive
  rw [CountsStored] at h ⊢
  rw [advance] at hStored ⊢
  dsimp only at hStored ⊢
  omega

omit [DecidableEq Node] in
theorem CountsStored.call {t : Thread} {a : QueueAdvance Node Value} (h : s.CountsStored)
    (hIdle : s.threads t = .idle) (hQueue : a.queue = s.queue)
    (hOutside : a.pc.admitted = false ∧ a.pc.refused = false ∧ a.pc.linked = false ∧ a.pc.unlinked = false)
    (hMark : valueOf QueueMark.added a.mark = 0 ∧ valueOf QueueMark.taken a.mark = 0) :
    (s.advance t a).CountsStored := by
  have hAdmitted := crewCount_update QueuePc.admitted s.threads t a.pc
  have hRefused := crewCount_update QueuePc.refused s.threads t a.pc
  have hLinked := crewCount_update QueuePc.linked s.threads t a.pc
  have hStored := s.advance_stored t a
  rw [hIdle, hOutside.1] at hAdmitted
  rw [hIdle, hOutside.2.1] at hRefused
  rw [hIdle, hOutside.2.2.1] at hLinked
  rw [hIdle, hOutside.2.2.1, hOutside.2.2.2, hMark.1, hMark.2] at hStored
  simp only [QueuePc.admitted, QueuePc.refused, QueuePc.linked, QueuePc.unlinked, Bool.toNat_false,
    Multiset.card_zero] at hAdmitted hRefused hLinked hStored
  rw [CountsStored] at h ⊢
  rw [advance] at hStored ⊢
  dsimp only at hStored ⊢
  have hUsed : a.queue.mUsedSize = s.queue.mUsedSize := by rw [hQueue]
  omega

omit [DecidableEq Thread] in
theorem start_countsStored (dummyNode : Node) (nodes : Node → QueueNode Node Value) :
    (start dummyNode nodes : QueueSystem Thread Node Value).CountsStored := by
  have hZero : ∀ kind : QueuePc Node Value → Bool, kind .idle = false →
      crewCount kind (fun _ : Thread => QueuePc.idle) = 0 :=
    fun kind hKind => crewCount_eq_zero fun _ => hKind
  rw [CountsStored, start_stored]
  simp [start, LockFreeQueue.storeNext, hZero QueuePc.admitted rfl, hZero QueuePc.refused rfl,
    hZero QueuePc.linked rfl]

theorem CountsStored.step (h : s.CountsStored) (hHolds : s.Holds) (hGuard : s.Unwrapped action)
    (hStep : s.step action = some s') : s'.CountsStored := by
  cases action with
  | callEnqueue t v =>
      rw [QueueSystem.step] at hStep
      split at hStep <;> cases hStep
      rename_i hIdle
      exact h.call hIdle rfl ⟨rfl, rfl, rfl, rfl⟩ ⟨rfl, rfl⟩
  | callTryDequeue t =>
      rw [QueueSystem.step] at hStep
      split at hStep <;> cases hStep
      rename_i hIdle
      exact h.call hIdle rfl ⟨rfl, rfl, rfl, rfl⟩ ⟨rfl, rfl⟩
  | run t fresh =>
      obtain ⟨lists, hShaped, _⟩ := hHolds
      obtain ⟨a, hRun, rfl⟩ := Option.map_eq_some_iff.mp hStep
      refine h.run hRun ?_
      intro hCrashed
      have hSound := (hShaped.moves hRun).1
      rw [hCrashed] at hSound
      exact hSound

/-- With no call under way `mUsedSize` is what is stored. -/
theorem stored_eq_usedSize (dummyNode : Node) (nodes : Node → QueueNode Node Value)
    (h : Reachable (Takes step) Unwrapped (start dummyNode nodes) s) (hIdle : ∀ t, s.threads t = .idle) :
    s.stored = s.queue.mUsedSize := by
  have hCounts : s.Holds ∧ s.CountsStored := by
    clear hIdle
    induction h with
    | refl => exact ⟨start_holds dummyNode nodes, start_countsStored dummyNode nodes⟩
    | tail _ hGuard hStep ih => exact ⟨ih.1.step hGuard hStep, ih.2.step ih.1 hGuard hStep⟩
  have hZero : ∀ kind : QueuePc Node Value → Bool, kind .idle = false → crewCount kind s.threads = 0 := by
    intro kind hKind
    apply crewCount_eq_zero
    intro t
    rw [hIdle, hKind]
  rw [← hCounts.2, hZero QueuePc.admitted rfl, hZero QueuePc.refused rfl, hZero QueuePc.linked rfl]
  simp

/-- One thread enqueues twice. -/
def twoEnqueues : List (QueueAction Unit Nat Nat) :=
  .callEnqueue () 7 :: List.replicate 10 (.run () (some 1)) ++
    .callEnqueue () 8 :: List.replicate 10 (.run () (some 2))

/-- `Enqueue` answers the second call as it does the first. -/
theorem twoEnqueues_ends : ∃ s : QueueSystem Unit Nat Nat,
    exec step (start 0 fun _ => ⟨none, 0⟩) twoEnqueues = some s ∧ s.stored = 2 ∧
      valuesOf QueueMark.added s.history = [7, 8] :=
  ⟨_, rfl, by decide, by decide⟩

end QueueSystem

end NfNetwork.Collections
