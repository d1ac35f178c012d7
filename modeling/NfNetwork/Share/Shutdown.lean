import Mathlib.Logic.Function.Basic
import NfNetwork.Machinery.Progress

/-! `Stop` beside the threads that it ends: the monitor thread, the accept thread and the IO threads of
a server that `Start` has brought up. Both servers run the same `Stop`; they differ in what an IO
thread makes of a completion port that is closed when it comes back to it. -/
namespace NfNetwork.Shutdown

open Machinery

/-- Where an IO thread is in its loop. `handles` is all that it does with one completion, `waits` is
inside `GetQueuedCompletionStatus`. A `crashed` thread has ended the process. -/
inductive IoPlace where
  | getQueuedCompletionStatus
  | waits
  | handles
  | returned
  | crashed
  deriving DecidableEq, Repr

inductive AcceptPlace where
  | accept
  | waits
  | createSession
  | returned
  deriving DecidableEq, Repr

inductive MonitorPlace where
  | waitOne
  | refresh
  | returned
  deriving DecidableEq, Repr

/-- The thread that calls `Stop`. -/
inductive StopPlace where
  | running
  | setQuitMre
  | joinMonitor
  | closeServerSock
  | joinAccept
  | closeIOHandle
  | joinIOThread (i : Nat)
  | clearPool
  | cleanup
  | onQuit
  | stopped
  deriving DecidableEq, Repr

/-- `LanCore` or `NetCore`, with `n` IO threads. `serverSock` and `ioHandle` say whether they are open. -/
structure Core (n : Nat) where
  isEnded : Bool
  quitMre : Bool
  serverSock : Bool
  ioHandle : Bool
  monitor : MonitorPlace
  accept : AcceptPlace
  io : Fin n → IoPlace
  stop : StopPlace
  quits : Nat

inductive Action (n : Nat) where
  | monitor
  | accept
  | io (i : Fin n)
  | stop

/-- The loop of an IO thread. The wait of one that is inside when the port is closed is abandoned
(`ERROR_ABANDONED_WAIT_0`); a later call finds an invalid handle. -/
def networkIOThread (onInvalidHandle : IoPlace) (ioHandle : Bool) : IoPlace → Option IoPlace
  | .getQueuedCompletionStatus => some (if ioHandle then .waits else onInvalidHandle)
  | .waits => some (if ioHandle then .handles else .returned)
  | .handles => some .getQueuedCompletionStatus
  | .returned | .crashed => none

/-- `LanCore::NetworkIOThread` calls `CrashDump::Crash` on every other error. -/
def lanNetworkIOThread : Bool → IoPlace → Option IoPlace := networkIOThread .crashed

/-- `NetworkAcceptThread`: `accept` fails once the socket is closed. -/
def networkAcceptThread (serverSock : Bool) : AcceptPlace → Option AcceptPlace
  | .accept => some (if serverSock then .waits else .returned)
  | .waits => some (if serverSock then .createSession else .returned)
  | .createSession => some .accept
  | .returned => none

/-- `MonitorRefreshThreadThread`: `WaitOne(1000)` runs out unless the event is set. -/
def monitorRefreshThread (quitMre : Bool) : MonitorPlace → Option MonitorPlace
  | .waitOne => some (if quitMre then .returned else .refresh)
  | .refresh => some .waitOne
  | .returned => none

/-- How far `Stop` has come. -/
def StopPlace.stage : StopPlace → Nat
  | .running => 0
  | .setQuitMre => 1
  | .joinMonitor => 2
  | .closeServerSock => 3
  | .joinAccept => 4
  | .closeIOHandle => 5
  | .joinIOThread _ => 6
  | .clearPool => 7
  | .cleanup => 8
  | .onQuit => 9
  | .stopped => 10

/-- The IO threads that `Stop` has joined. -/
def StopPlace.joined (n : Nat) : StopPlace → Nat
  | .joinIOThread i => i
  | .clearPool | .cleanup | .onQuit | .stopped => n
  | _ => 0

/-- The steps that the thread has left once it is to end. -/
def MonitorPlace.left : MonitorPlace → Nat
  | .refresh => 2
  | .waitOne => 1
  | .returned => 0

def AcceptPlace.left : AcceptPlace → Nat
  | .createSession => 2
  | .accept | .waits => 1
  | .returned => 0

def IoPlace.left : IoPlace → Nat
  | .handles => 2
  | .getQueuedCompletionStatus | .waits => 1
  | .returned | .crashed => 0

/-- The steps that `Stop` has left itself. -/
def StopPlace.left (n : Nat) : StopPlace → Nat
  | .running => n + 10
  | .setQuitMre => n + 9
  | .joinMonitor => n + 8
  | .closeServerSock => n + 7
  | .joinAccept => n + 6
  | .closeIOHandle => n + 5
  | .joinIOThread i => n - i + 4
  | .clearPool => 3
  | .cleanup => 2
  | .onQuit => 1
  | .stopped => 0

namespace Core

variable {n : Nat}

/-- What `Start` leaves. -/
def start (n : Nat) : Core n where
  isEnded := false
  quitMre := false
  serverSock := true
  ioHandle := true
  monitor := .waitOne
  accept := .accept
  io _ := .getQueuedCompletionStatus
  stop := .running
  quits := 0

/-- `Stop`. A `join` has no step before its thread has returned. -/
def stopStep (s : Core n) : Option (Core n) :=
  match s.stop with
  | .running => some { s with isEnded := true, stop := .setQuitMre }
  | .setQuitMre => some { s with quitMre := true, stop := .joinMonitor }
  | .joinMonitor => if s.monitor = .returned then some { s with stop := .closeServerSock } else none
  | .closeServerSock => some { s with serverSock := false, stop := .joinAccept }
  | .joinAccept => if s.accept = .returned then some { s with stop := .closeIOHandle } else none
  | .closeIOHandle => some { s with ioHandle := false, stop := .joinIOThread 0 }
  | .joinIOThread i =>
    if h : i < n then
      if s.io ⟨i, h⟩ = .returned then some { s with stop := .joinIOThread (i + 1) } else none
    else some { s with stop := .clearPool }
  | .clearPool => some { s with stop := .cleanup }
  | .cleanup => some { s with stop := .onQuit }
  | .onQuit => some { s with quits := s.quits + 1, stop := .stopped }
  | .stopped => none

/-- One step of one thread. A call of `CrashDump::Crash` ends the process. -/
def step (ioThread : Bool → IoPlace → Option IoPlace) (s : Core n) (a : Action n) : Option (Core n) :=
  if ∃ i, s.io i = .crashed then none
  else match a with
    | .monitor => (monitorRefreshThread s.quitMre s.monitor).map fun place => { s with monitor := place }
    | .accept => (networkAcceptThread s.serverSock s.accept).map fun place => { s with accept := place }
    | .io i => (ioThread s.ioHandle (s.io i)).map fun place =>
        { s with io := Function.update s.io i place }
    | .stop => s.stopStep

/-- What `Stop` has done by the place it is at. -/
structure Sound (s : Core n) : Prop where
  quitMre : s.quitMre = decide (2 ≤ s.stop.stage)
  monitor : 3 ≤ s.stop.stage → s.monitor = .returned
  serverSock : s.serverSock = decide (s.stop.stage < 4)
  accept : 5 ≤ s.stop.stage → s.accept = .returned
  ioHandle : s.ioHandle = decide (s.stop.stage < 6)
  works : s.ioHandle = true → ∀ i, s.io i ≠ .returned
  joined : ∀ i : Fin n, i.val < s.stop.joined n → s.io i = .returned
  bound : s.stop.joined n ≤ n
  quits : s.quits = if s.stop = .stopped then 1 else 0

/-- The server that `Start` has brought up. -/
theorem start_sound : (start n).Sound where
  quitMre := rfl
  monitor h := absurd h (show ¬ 3 ≤ 0 by decide)
  serverSock := rfl
  accept h := absurd h (show ¬ 5 ≤ 0 by decide)
  ioHandle := rfl
  works _ _ := IoPlace.noConfusion
  joined _ h := absurd h (Nat.not_lt_zero _)
  bound := Nat.zero_le _
  quits := rfl

section Steps

variable {s s' : Core n} {onInvalidHandle : IoPlace}

/-- A step of an IO thread. -/
theorem networkIOThread_cases {ioHandle : Bool} {place next : IoPlace}
    (h : networkIOThread onInvalidHandle ioHandle place = some next) :
    (ioHandle = true ∧ next ≠ .returned ∧ next ≠ .crashed) ∨
      (ioHandle = false ∧ ((place = .handles ∧ next = .getQueuedCompletionStatus) ∨
        (place = .waits ∧ next = .returned) ∨
        (place = .getQueuedCompletionStatus ∧ next = onInvalidHandle))) := by
  cases ioHandle <;> cases place <;> simp_all [networkIOThread] <;> subst h <;> simp

/-- Each step of `Stop` closes one thing more, in its order. -/
theorem stopStep_sound (hSound : s.Sound) (h : s.stopStep = some s') : s'.Sound := by
  obtain ⟨hQuitMre, hMonitor, hSock, hAccept, hHandle, hWorks, hJoined, hBound, hQuits⟩ := hSound
  obtain ⟨isEnded, quitMre, serverSock, ioHandle, monitor, acceptPlace, io, stop, quits⟩ := s
  cases stop with
  | running | setQuitMre | closeServerSock | closeIOHandle | clearPool | cleanup | onQuit =>
      cases h
      constructor
      all_goals simp_all [StopPlace.stage, StopPlace.joined]
  | joinMonitor | joinAccept =>
      obtain ⟨hReturned, hNext⟩ := Option.ite_none_right_eq_some.mp h
      cases hNext
      constructor
      all_goals simp_all [StopPlace.stage, StopPlace.joined]
  | joinIOThread i =>
      simp only [stopStep] at h
      split at h
      · rename_i hi
        obtain ⟨hReturned, hNext⟩ := Option.ite_none_right_eq_some.mp h
        cases hNext
        have hNow : ∀ j : Fin n, j.val < i + 1 → io j = .returned := by
          intro j hj
          rcases Nat.lt_succ_iff_lt_or_eq.mp hj with hBefore | rfl
          · exact hJoined j hBefore
          · exact hReturned
        exact ⟨hQuitMre, hMonitor, hSock, hAccept, hHandle, hWorks, hNow, hi, hQuits⟩
      · rename_i hi
        cases h
        have hAll : ∀ j, io j = .returned := fun j => hJoined j (Nat.lt_of_lt_of_le j.isLt (Nat.not_lt.mp hi))
        exact ⟨hQuitMre, fun _ => hMonitor (show 3 ≤ 6 by decide), hSock,
          fun _ => hAccept (show 5 ≤ 6 by decide), hHandle, hWorks, fun j _ => hAll j, Nat.le_refl n, hQuits⟩
  | stopped => cases h

/-- And no other thread opens one again. -/
theorem step_sound {a : Action n} (hSound : s.Sound)
    (h : s.step (networkIOThread onInvalidHandle) a = some s') : s'.Sound := by
  obtain ⟨hAlive, hStep⟩ := Option.ite_none_left_eq_some.mp h
  cases a with
  | stop => exact stopStep_sound hSound hStep
  | monitor =>
      obtain ⟨place, hPlace, rfl⟩ := Option.map_eq_some_iff.mp hStep
      refine { hSound with monitor := fun hStage => ?_ }
      rw [hSound.monitor hStage] at hPlace
      cases hPlace
  | accept =>
      obtain ⟨place, hPlace, rfl⟩ := Option.map_eq_some_iff.mp hStep
      refine { hSound with accept := fun hStage => ?_ }
      rw [hSound.accept hStage] at hPlace
      cases hPlace
  | io i =>
      obtain ⟨place, hPlace, rfl⟩ := Option.map_eq_some_iff.mp hStep
      refine { hSound with works := fun hOpen => ?_, joined := fun j hj => ?_ }
      · refine (Function.forall_update_iff s.io fun _ place => place ≠ .returned).mpr
          ⟨?_, fun j _ => hSound.works hOpen j⟩
        rcases networkIOThread_cases hPlace with ⟨_, hReturned, _⟩ | ⟨hClosed, _⟩
        · exact hReturned
        · rw [show s.ioHandle = true from hOpen] at hClosed
          cases hClosed
      · by_cases hji : j = i
        · subst hji
          rw [hSound.joined j hj] at hPlace
          cases hPlace
        · exact (Function.update_of_ne hji ..).trans (hSound.joined j hj)

end Steps

section Completion

variable {s s' : Core n} {onInvalidHandle : IoPlace}

/-- No IO thread crashes, whatever it makes of an invalid handle: if it would crash, it is inside its
wait until it returns. -/
structure EndsWell (onInvalidHandle : IoPlace) (s : Core n) : Prop where
  alive : ∀ i, s.io i ≠ .crashed
  waits : onInvalidHandle = .crashed → s.ioHandle = false ∧ ∀ i, s.io i = .waits ∨ s.io i = .returned

/-- `Stop` closes the port and moves no IO thread. -/
theorem stopStep_io (h : s.stopStep = some s') :
    s'.io = s.io ∧ (s.ioHandle = false → s'.ioHandle = false) := by
  unfold stopStep at h
  split at h
  case h_1 | h_2 | h_4 | h_6 | h_8 | h_9 | h_10 =>
      cases h
      simp
  case h_3 | h_5 =>
      obtain ⟨_, hNext⟩ := Option.ite_none_right_eq_some.mp h
      cases hNext
      simp
  case h_7 i _ =>
      split at h
      · obtain ⟨_, hNext⟩ := Option.ite_none_right_eq_some.mp h
        cases hNext
        simp
      · cases h
        simp
  case h_11 => cases h

/-- From the moment the port is closed, no IO thread comes back to it. -/
theorem EndsWell.step {a : Action n} (hWell : s.EndsWell onInvalidHandle)
    (h : s.step (networkIOThread onInvalidHandle) a = some s') :
    s'.EndsWell onInvalidHandle := by
  obtain ⟨_, hStep⟩ := Option.ite_none_left_eq_some.mp h
  cases a with
  | stop =>
      obtain ⟨hIo, hHandle⟩ := stopStep_io hStep
      refine ⟨fun i => hIo ▸ hWell.alive i, fun hCrash => ?_⟩
      obtain ⟨hClosed, hWaits⟩ := hWell.waits hCrash
      exact ⟨hHandle hClosed, fun i => hIo ▸ hWaits i⟩
  | monitor | accept =>
      obtain ⟨place, _, rfl⟩ := Option.map_eq_some_iff.mp hStep
      exact ⟨hWell.alive, hWell.waits⟩
  | io i =>
      obtain ⟨place, hPlace, rfl⟩ := Option.map_eq_some_iff.mp hStep
      refine ⟨?_, fun hCrash => ?_⟩
      · refine (Function.forall_update_iff s.io fun _ place => place ≠ .crashed).mpr
          ⟨?_, fun j _ => hWell.alive j⟩
        rintro rfl
        obtain ⟨_, _, hNot⟩ | ⟨_, ⟨_, hNext⟩ | ⟨_, hNext⟩ | ⟨hCall, hNext⟩⟩ := networkIOThread_cases hPlace
        · exact hNot rfl
        · cases hNext
        · cases hNext
        · have hWaits := (hWell.waits hNext.symm).2 i
          rw [hCall] at hWaits
          simp at hWaits
      · obtain ⟨hClosed, hWaits⟩ := hWell.waits hCrash
        refine ⟨hClosed, (Function.forall_update_iff s.io fun _ place => place = .waits ∨ place = .returned).mpr
          ⟨.inr ?_, fun j _ => hWaits j⟩⟩
        rw [hClosed] at hPlace
        rcases hWaits i with hWaiting | hReturned
        · rw [hWaiting] at hPlace
          exact (Option.some.inj hPlace).symm
        · rw [hReturned] at hPlace
          cases hPlace

/-- The steps that the thread has left that `Stop` is waiting for. -/
def waitedFor (s : Core n) : Nat :=
  match s.stop with
  | .joinMonitor => s.monitor.left
  | .joinAccept => s.accept.left
  | .joinIOThread i => if h : i < n then (s.io ⟨i, h⟩).left else 0
  | _ => 0

def rank (s : Core n) : Nat := 3 * s.stop.left n + s.waitedFor

/-- `Stop` waits for two threads and the port at most. -/
theorem waitedFor_le (s : Core n) : s.waitedFor ≤ 2 := by
  have hMonitor : ∀ place : MonitorPlace, place.left ≤ 2 := by rintro ⟨⟩ <;> decide
  have hAccept : ∀ place : AcceptPlace, place.left ≤ 2 := by rintro ⟨⟩ <;> decide
  have hIo : ∀ place : IoPlace, place.left ≤ 2 := by rintro ⟨⟩ <;> decide
  unfold waitedFor
  split
  · exact hMonitor _
  · exact hAccept _
  · split
    · exact hIo _
    · exact Nat.zero_le _
  · exact Nat.zero_le _

/-- A thread that is to end comes nearer to it. -/
theorem monitorRefreshThread_nears {place : MonitorPlace} (h : place ≠ .returned) :
    ∃ next, monitorRefreshThread true place = some next ∧ next.left < place.left := by
  cases place with
  | returned => exact absurd rfl h
  | waitOne | refresh => exact ⟨_, rfl, by decide⟩

/-- With its socket closed the accept thread comes nearer to its end. -/
theorem networkAcceptThread_nears {place : AcceptPlace} (h : place ≠ .returned) :
    ∃ next, networkAcceptThread false place = some next ∧ next.left < place.left := by
  cases place with
  | returned => exact absurd rfl h
  | accept | waits | createSession => exact ⟨_, rfl, by decide⟩

/-- So does an IO thread with the port closed, whatever it makes of that. -/
theorem networkIOThread_nears {place : IoPlace}
    (hInvalid : onInvalidHandle = .returned ∨ onInvalidHandle = .crashed) (hReturned : place ≠ .returned)
    (hCrashed : place ≠ .crashed) :
    ∃ next, networkIOThread onInvalidHandle false place = some next ∧ next.left < place.left := by
  cases place with
  | returned => exact absurd rfl hReturned
  | crashed => exact absurd rfl hCrashed
  | waits | handles => exact ⟨_, rfl, by decide⟩
  | getQueuedCompletionStatus =>
      refine ⟨_, rfl, ?_⟩
      rcases hInvalid with rfl | rfl <;> decide

/-- While no thread has crashed, an IO thread that can go on may. -/
theorem step_io {ioThread : Bool → IoPlace → Option IoPlace} {i : Fin n} {place : IoPlace}
    (hAlive : ∀ j, s.io j ≠ .crashed) (h : ioThread s.ioHandle (s.io i) = some place) :
    s.step ioThread (.io i) = some { s with io := Function.update s.io i place } := by
  rw [step, if_neg (by simpa using hAlive)]
  simp only [h, Option.map_some]

/-- `Stop` is not done: it takes a step, or the thread does that it is waiting for. -/
theorem nears (hInvalid : onInvalidHandle = .returned ∨ onInvalidHandle = .crashed) (hSound : s.Sound)
    (hAlive : ∀ i, s.io i ≠ .crashed) (hStop : s.stop ≠ .stopped) :
    ∃ a s', s.step (networkIOThread onInvalidHandle) a = some s' ∧ s'.rank < s.rank := by
  have hNoCrash : ¬ ∃ i, s.io i = .crashed := by simpa using hAlive
  have hThread {a : Action n} (h : ∃ s', s.step (networkIOThread onInvalidHandle) a = some s' ∧
      s'.stop = s.stop ∧ s'.waitedFor < s.waitedFor) :
      ∃ a s', s.step (networkIOThread onInvalidHandle) a = some s' ∧ s'.rank < s.rank := by
    obtain ⟨s', hStep, hSame, hLess⟩ := h
    refine ⟨a, s', hStep, ?_⟩
    rw [rank, rank, hSame]
    omega
  have hGoes (h : ∃ s', s.stopStep = some s' ∧ s'.stop.left n < s.stop.left n) :
      ∃ a s', s.step (networkIOThread onInvalidHandle) a = some s' ∧ s'.rank < s.rank := by
    obtain ⟨s', hStep, hLess⟩ := h
    refine ⟨.stop, s', (if_neg hNoCrash).trans hStep, ?_⟩
    have hLe := s'.waitedFor_le
    rw [rank, rank]
    omega
  cases hPlace : s.stop with
  | running | setQuitMre | closeServerSock | closeIOHandle | clearPool | cleanup | onQuit =>
      refine hGoes ⟨_, by rw [stopStep, hPlace], ?_⟩
      simp [StopPlace.left, hPlace]
  | joinMonitor =>
      by_cases hReturned : s.monitor = .returned
      · refine hGoes ⟨_, by rw [stopStep, hPlace]; exact if_pos hReturned, ?_⟩
        simp [StopPlace.left, hPlace]
      · obtain ⟨next, hNext, hLess⟩ := monitorRefreshThread_nears hReturned
        have hSet : s.quitMre = true := by rw [hSound.quitMre, hPlace]; rfl
        have hStep : monitorRefreshThread s.quitMre s.monitor = some next := by rw [hSet]; exact hNext
        refine hThread (a := .monitor) ⟨_, (if_neg hNoCrash).trans (congrArg (Option.map _) hStep), rfl, ?_⟩
        simpa [waitedFor, hPlace] using hLess
  | joinAccept =>
      by_cases hReturned : s.accept = .returned
      · refine hGoes ⟨_, by rw [stopStep, hPlace]; exact if_pos hReturned, ?_⟩
        simp [StopPlace.left, hPlace]
      · obtain ⟨next, hNext, hLess⟩ := networkAcceptThread_nears hReturned
        have hClosed : s.serverSock = false := by rw [hSound.serverSock, hPlace]; rfl
        have hStep : networkAcceptThread s.serverSock s.accept = some next := by rw [hClosed]; exact hNext
        refine hThread (a := .accept) ⟨_, (if_neg hNoCrash).trans (congrArg (Option.map _) hStep), rfl, ?_⟩
        simpa [waitedFor, hPlace] using hLess
  | joinIOThread i =>
      by_cases hi : i < n
      · by_cases hReturned : s.io ⟨i, hi⟩ = .returned
        · refine hGoes ⟨_, by rw [stopStep, hPlace]; exact (dif_pos hi).trans (if_pos hReturned), ?_⟩
          simp only [StopPlace.left, hPlace]
          omega
        · obtain ⟨next, hNext, hLess⟩ := networkIOThread_nears hInvalid hReturned (hAlive ⟨i, hi⟩)
          have hClosed : s.ioHandle = false := by rw [hSound.ioHandle, hPlace]; rfl
          have hStep : networkIOThread onInvalidHandle s.ioHandle (s.io ⟨i, hi⟩) = some next := by
            rw [hClosed]
            exact hNext
          refine hThread ⟨_, step_io hAlive hStep, rfl, ?_⟩
          simpa [waitedFor, hPlace, hi] using hLess
      · refine hGoes ⟨_, by rw [stopStep, hPlace]; exact dif_neg hi, ?_⟩
        simp only [StopPlace.left, hPlace]
        omega
  | stopped => exact absurd hPlace hStop

/-- Where every IO thread ends well, `Stop` can get through. -/
theorem EndsWell.completes (hInvalid : onInvalidHandle = .returned ∨ onInvalidHandle = .crashed)
    (hSound : s.Sound) (hWell : s.EndsWell onInvalidHandle) :
    ∃ actions s', exec (Core.step (networkIOThread onInvalidHandle)) s actions = some s' ∧ s'.stop = .stopped := by
  refine exists_exec_of_nears (fun s : Core n => s.Sound ∧ Core.EndsWell onInvalidHandle s)
    (fun s => s.stop = .stopped) rank (fun s hInv hStop => ?_) ⟨hSound, hWell⟩
  obtain ⟨a, s', hStep, hLess⟩ := nears hInvalid hInv.1 hInv.2.alive hStop
  exact ⟨a, s', hStep, ⟨step_sound hInv.1 hStep, hInv.2.step hStep⟩, hLess⟩

/-- The run lemma. -/
theorem sound_of_reachable
    (h : Reachable (Takes (step (networkIOThread onInvalidHandle))) (fun _ _ => True) (start n) s) : s.Sound := by
  apply h.invariant
  · exact start_sound
  · rintro s s' a - hSound - hStep
    exact step_sound hSound hStep

/-- `Stop` is to close the port, one IO thread waits and the other handles a completion. -/
private def oneHandles : Core 2 where
  isEnded := true
  quitMre := true
  serverSock := false
  ioHandle := true
  monitor := .returned
  accept := .returned
  io := Function.update (Function.update (Function.update (fun _ => .getQueuedCompletionStatus) 0 .waits) 1 .waits)
    1 .handles
  stop := .closeIOHandle
  quits := 0

private def untilPort : List (Action 2) :=
  [.io 0, .io 1, .io 1, .stop, .stop, .monitor, .stop, .stop, .accept, .stop]

/-- An IO thread that is not inside its wait when the port is closed is not going to return. -/
theorem lan_stays_out {a : Action n} {i : Fin n} (hClosed : s.ioHandle = false)
    (hOut : s.io i ≠ .waits ∧ s.io i ≠ .returned) (h : s.step lanNetworkIOThread a = some s') :
    s'.ioHandle = false ∧ s'.io i ≠ .waits ∧ s'.io i ≠ .returned := by
  obtain ⟨_, hStep⟩ := Option.ite_none_left_eq_some.mp h
  cases a with
  | stop =>
      obtain ⟨hIo, hHandle⟩ := stopStep_io hStep
      exact ⟨hHandle hClosed, hIo ▸ hOut⟩
  | monitor | accept =>
      obtain ⟨place, _, rfl⟩ := Option.map_eq_some_iff.mp hStep
      exact ⟨hClosed, hOut⟩
  | io j =>
      obtain ⟨place, hPlace, rfl⟩ := Option.map_eq_some_iff.mp hStep
      refine ⟨hClosed, ?_⟩
      by_cases hij : i = j
      · subst hij
        simp only [Function.update_self]
        obtain ⟨hOpen, _⟩ | ⟨_, ⟨_, rfl⟩ | ⟨hWaits, _⟩ | ⟨_, rfl⟩⟩ := networkIOThread_cases hPlace
        · rw [hClosed] at hOpen
          cases hOpen
        · decide
        · exact absurd hWaits hOut.1
        · decide
      · simpa only [Function.update_of_ne hij] using hOut

/-- Such a thread can go on to crash. -/
theorem lan_crashes {i : Fin n} (hAlive : ∀ j, s.io j ≠ .crashed) (hClosed : s.ioHandle = false)
    (hOut : s.io i ≠ .waits ∧ s.io i ≠ .returned) :
    ∃ actions s', exec (step lanNetworkIOThread) s actions = some s' ∧ s'.io i = .crashed := by
  have hCall {s : Core n} (hAlive : ∀ j, s.io j ≠ .crashed) (hClosed : s.ioHandle = false)
      (hPlace : s.io i = .getQueuedCompletionStatus) :
      ∃ s', s.step lanNetworkIOThread (.io i) = some s' ∧ s'.io i = .crashed :=
    ⟨_, step_io hAlive (by rw [hClosed, hPlace]; rfl), Function.update_self ..⟩
  cases hPlace : s.io i with
  | waits => exact absurd hPlace hOut.1
  | returned => exact absurd hPlace hOut.2
  | crashed => exact absurd hPlace (hAlive i)
  | getQueuedCompletionStatus =>
      obtain ⟨s', hStep, hCrashed⟩ := hCall hAlive hClosed hPlace
      exact ⟨[.io i], s', by rw [exec, hStep]; rfl, hCrashed⟩
  | handles =>
      have hFirst : s.step lanNetworkIOThread (.io i) =
          some { s with io := Function.update s.io i .getQueuedCompletionStatus } :=
        step_io hAlive (by rw [hPlace]; rfl)
      have hAlive' : ∀ j, Function.update s.io i .getQueuedCompletionStatus j ≠ .crashed :=
        (Function.forall_update_iff s.io fun _ place => place ≠ .crashed).mpr
          ⟨IoPlace.noConfusion, fun j _ => hAlive j⟩
      obtain ⟨s', hStep, hCrashed⟩ := hCall (s := { s with io := Function.update s.io i _ }) hAlive' hClosed
        (Function.update_self ..)
      exact ⟨[.io i, .io i], s', by simp only [exec, hFirst, hStep], hCrashed⟩

/-- A LAN server's `Stop` can get through from where it closes the port exactly if every IO thread is
inside its wait just then, and exactly then no run goes on to crash. -/
theorem lanCore_stops_iff
    (h : Reachable (Takes (step lanNetworkIOThread)) (fun _ _ => True) (start n) s)
    (hPlace : s.stop = .closeIOHandle) (hStep : s.step lanNetworkIOThread .stop = some s') :
    ((∃ actions s'', exec (step lanNetworkIOThread) s' actions = some s'' ∧ s''.stop = .stopped) ↔
        ∀ i, s.io i = .waits) ∧
      ((∀ actions s'', exec (step lanNetworkIOThread) s' actions = some s'' → ∀ i, s''.io i ≠ .crashed) ↔
        ∀ i, s.io i = .waits) := by
  have hSound : s.Sound := sound_of_reachable h
  have hSound' : s'.Sound := step_sound hSound hStep
  obtain ⟨hNoCrash, hStop⟩ := Option.ite_none_left_eq_some.mp hStep
  have hIo : s'.io = s.io := (stopStep_io hStop).1
  have hClosed : s'.ioHandle = false := by
    simp only [stopStep, hPlace, Option.some.injEq] at hStop
    rw [← hStop]
  have hAlive : ∀ i, s'.io i ≠ .crashed := fun i hCrashed => hNoCrash ⟨i, hIo ▸ hCrashed⟩
  have hOpen : s.ioHandle = true := by
    rw [hSound.ioHandle, hPlace]
    rfl
  have hWell (hWaits : ∀ i, s.io i = .waits) : s'.EndsWell .crashed :=
    ⟨hAlive, fun _ => ⟨hClosed, fun i => .inl (hIo ▸ hWaits i)⟩⟩
  have hOut {i : Fin n} (hNot : s.io i ≠ .waits) : s'.io i ≠ .waits ∧ s'.io i ≠ .returned :=
    ⟨hIo ▸ hNot, hIo ▸ hSound.works hOpen i⟩
  refine ⟨⟨?_, fun hWaits => (hWell hWaits).completes (.inr rfl) hSound'⟩, ⟨?_, ?_⟩⟩
  · rintro ⟨actions, s'', hRun, hStopped⟩ i
    by_contra hNot
    have hStays : s''.ioHandle = false ∧ s''.io i ≠ .waits ∧ s''.io i ≠ .returned :=
      exec_keeps (fun hInv hNext => lan_stays_out hInv.1 hInv.2 hNext) ⟨hClosed, hOut hNot⟩ hRun
    have hSound'' : s''.Sound := exec_keeps (fun hInv hNext => step_sound hInv hNext) hSound' hRun
    refine hStays.2.2 (hSound''.joined i ?_)
    rw [hStopped]
    exact i.isLt
  · intro hNever i
    by_contra hNot
    obtain ⟨actions, s'', hRun, hCrashed⟩ := lan_crashes hAlive hClosed (hOut hNot)
    exact hNever actions s'' hRun i hCrashed
  · intro hWaits actions s'' hRun
    have hWell' : s''.EndsWell .crashed := exec_keeps (fun hInv hNext => hInv.step hNext) (hWell hWaits) hRun
    exact hWell'.alive

/-- On the LAN side that thread crashes when it comes back to the port. -/
theorem lanCore_stops_iff_oneHandles :
    ¬ ∃ actions s'', exec (step lanNetworkIOThread) { oneHandles with ioHandle := false, stop := .joinIOThread 0 } actions =
      some s'' ∧ s''.stop = .stopped := by
  have hRun : exec (step lanNetworkIOThread) (start 2) untilPort = some oneHandles := rfl
  intro hStops
  have hWaits := (lanCore_stops_iff (reachable_of_exec hRun) rfl rfl).1.mp hStops 1
  exact IoPlace.noConfusion hWaits

end Completion

end Core

end NfNetwork.Shutdown
