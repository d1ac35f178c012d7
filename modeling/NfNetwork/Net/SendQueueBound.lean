import NfNetwork.Collections.QueueBound
import NfNetwork.Net.Broadcast
import NfNetwork.Net.SendCall

/-! The bound on the send queue of a session, which nothing enforces: `LockFreeQueue` keeps to its
capacity, and a session to `NET_SESSION_SENDQUEUE_SIZE`, only while nobody enqueues more. -/
namespace NfNetwork.Net

open Machinery Collections

def netSessionSendQueueSize : Nat := 1024

/-- The append of `mSendQueue.Enqueue`. -/
def SlotPc.enqueues : SlotPc → Bool
  | .enqueue _ _ => true
  | _ => false

section Slots

variable {slot : Slot} {env : Env} {pc : SlotPc} {e : Effect}

theorem SendPostPc.step_sendQueue_length {caller : SendCaller} {pc : SendPostPc}
    (h : pc.step slot env caller = some e) :
    e.slot.session.sendQueue.length ≤ slot.session.sendQueue.length := by
  cases pc
  case clearFlag | markPosted =>
    cases h
    simp
  all_goals simp only [SendPostPc.step, goto, update] at h
  all_goals repeat' split at h
  all_goals cases h
  all_goals simp_all

/-- Only `Enqueue` makes the queue longer. -/
theorem SlotPc.step_sendQueue_length (h : pc.step slot env = some e) :
    if pc.enqueues then e.slot.session.sendQueue.length = slot.session.sendQueue.length + 1
    else e.slot.session.sendQueue.length ≤ slot.session.sendQueue.length := by
  cases pc
  case enqueue id packet =>
    cases h
    simp [SlotPc.enqueues]
  case sendPost caller pc => exact SendPostPc.step_sendQueue_length h
  case recvPost caller pc =>
    cases pc <;> simp only [SlotPc.step, RecvPostPc.step, goto, update] at h
    all_goals repeat' split at h
    all_goals cases h
    all_goals exact Nat.le_refl _
  case release id pc =>
    cases pc <;> simp only [SlotPc.step, ReleasePc.step, goto, update] at h
    all_goals repeat' split at h
    all_goals cases h
    all_goals simp_all [SlotPc.enqueues]
  case finishSending caller pc =>
    cases pc <;> simp only [SlotPc.step, FinishPc.step, goto, update] at h
    all_goals repeat' split at h
    all_goals cases h
    all_goals simp [SlotPc.enqueues]
  case init pc =>
    cases pc <;> simp only [SlotPc.step, InitPc.step, goto, update] at h
    all_goals repeat' split at h
    all_goals cases h
    all_goals simp [SlotPc.enqueues]
  case completed kind outcome =>
    cases outcome <;> cases h <;> exact Nat.le_refl _
  all_goals simp only [SlotPc.step, goto, update] at h
  all_goals repeat' split at h
  all_goals cases h
  all_goals exact Nat.le_refl _

end Slots

namespace Server

variable {ioThreads callers poolSize : Nat}

/-- The packets that wait in the send queue of a session. -/
def unsent (k : Fin poolSize) (s : Server ioThreads callers poolSize) : Int :=
  (s.slots k).session.sendQueue.length

/-- The next step of the thread is the `mSendQueue.Enqueue` of a session. -/
def Enqueues (k : Fin poolSize) (s : Server ioThreads callers poolSize)
    (a : Thread ioThreads callers × Choice poolSize) : Prop :=
  ∃ id packet rest, s.threads a.1 = .on k (.enqueue id packet) :: rest

theorem grows (k : Fin poolSize) :
    Grows (step : Server ioThreads callers poolSize → _ → _) (unsent k) (Enqueues k) where
  adds {s s' a} hStep hEnqueues := by
    obtain ⟨id, packet, rest, hTop⟩ := hEnqueues
    obtain ⟨t, choice⟩ := a
    rw [step, hTop] at hStep
    cases choice with
    | env env =>
        cases hStep
        simp [unsent, apply]
    | call | completion => cases hStep
  others {s s' a} hStep hNot := by
    rcases (step_advance hStep).queue (k := k) with hSame | ⟨env, rest, pc, e, hTop, hEffect, hQueue⟩
    · rw [unsent, hSame]
      exact Int.le_refl _
    · have hLength := SlotPc.step_sendQueue_length hEffect
      have hQuiet : pc.enqueues = false := by
        cases pc with
        | enqueue id packet => exact absurd ⟨id, packet, rest, hTop⟩ hNot
        | _ => rfl
      rw [if_neg (Bool.eq_false_iff.mp hQuiet)] at hLength
      rw [unsent, unsent, hQueue]
      exact Int.ofNat_le.mpr hLength

/-- The queue keeps to its capacity in exactly the runs in which no `Enqueue` links its node while the
queue is full, and a session keeps to `NET_SESSION_SENDQUEUE_SIZE` in exactly the runs in which no
`Enqueue` is made on that many packets. -/
theorem sendQueue_bounded_iff {Caller Node Value : Type} [Fintype Caller] [DecidableEq Caller]
    [DecidableEq Node] :
    (∀ (capacity : Nat) (dummyNode : Node) (nodes : Node → QueueNode Node Value)
      (actions : List (QueueAction Caller Node Value)) (s : QueueSystem Caller Node Value),
      exec QueueSystem.step (.start dummyNode nodes) actions = some s →
        (StaysWithin QueueSystem.step QueueSystem.stored capacity (.start dummyNode nodes) actions ↔
          AddsBelow QueueSystem.step QueueSystem.stored QueueSystem.Links capacity
            (.start dummyNode nodes) actions)) ∧
    ∀ (actions : List (Thread ioThreads callers × Choice poolSize))
      (s : Server ioThreads callers poolSize),
      exec step (start ioThreads callers poolSize) actions = some s → ∀ k,
        (StaysWithin step (unsent k) netSessionSendQueueSize (start ioThreads callers poolSize) actions ↔
          AddsBelow step (unsent k) (Enqueues k) netSessionSendQueueSize
            (start ioThreads callers poolSize) actions) := by
  constructor
  · intro capacity dummyNode nodes actions s hRun
    refine QueueSystem.grows.staysWithin_iff ?_ hRun
    rw [QueueSystem.start_stored]
    exact Int.natCast_nonneg capacity
  · intro actions s hRun k
    exact (grows k).staysWithin_iff (Int.natCast_nonneg _) hRun

/-- A second `Enqueue` on a queue for one element, and `SendPacket` to a client that does not read. -/
theorem sendQueue_bounded_iff_unread :
    ¬AddsBelow QueueSystem.step QueueSystem.stored QueueSystem.Links 1
      (.start 0 fun _ => ⟨none, 0⟩) QueueSystem.twoEnqueues ∧
    ∃ actions, ¬AddsBelow step (unsent 0) (Enqueues 0) netSessionSendQueueSize (start 1 1 1) actions := by
  obtain ⟨hQueue, hSession⟩ := @sendQueue_bounded_iff 1 1 1 Unit Nat Nat _ _ _
  constructor
  · obtain ⟨s, hRun, hStored, _⟩ := QueueSystem.twoEnqueues_ends
    intro hBelow
    have hWithin : s.stored ≤ 1 :=
      (hQueue 1 0 _ _ s hRun).mpr hBelow _ [] s (List.append_nil _).symm hRun
    rw [hStored] at hWithin
    exact absurd hWithin (by decide)
  · obtain ⟨s, hReached, _, hLength⟩ := sendInFlight_reached 1025
    obtain ⟨actions, hRun⟩ := exec_of_reachable hReached
    refine ⟨actions, ?_⟩
    intro hBelow
    have hWithin : unsent 0 s ≤ netSessionSendQueueSize :=
      (hSession actions s hRun 0).mpr hBelow _ [] s (List.append_nil _).symm hRun
    rw [unsent, hLength] at hWithin
    exact absurd hWithin (by decide)

/-- A queue for one element stores two. A session whose client does not read holds 1025 packets and is
still open: `NetSession::Enqueue` has not called `CancelationIO`. -/
theorem not_sendQueue_bounded :
    (¬ ∀ (capacity : Nat) (actions : List (QueueAction Unit Nat Nat)) (s : QueueSystem Unit Nat Nat),
      exec QueueSystem.step (.start 0 fun _ => ⟨none, 0⟩) actions = some s → s.stored ≤ capacity) ∧
    ¬ ∀ s : Server 1 1 1, Reached (fun _ _ => True) s →
      unsent 0 s ≤ netSessionSendQueueSize ∨ (s.slots 0).session.isCloseSocket = true := by
  constructor
  · intro hAll
    obtain ⟨s, hRun, hStored, _⟩ := QueueSystem.twoEnqueues_ends
    have hOne := hAll 1 _ s hRun
    rw [hStored] at hOne
    exact absurd hOne (by decide)
  · intro hAll
    obtain ⟨s, hReached, hInFlight, hLength⟩ := sendInFlight_reached 1025
    rcases hAll s hReached with hWithin | hClosed
    · rw [unsent, hLength] at hWithin
      exact absurd hWithin (by decide)
    · rw [hInFlight.2.2.2.1] at hClosed
      cases hClosed

end Server

end NfNetwork.Net
