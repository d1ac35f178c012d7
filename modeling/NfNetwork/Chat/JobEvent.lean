import NfNetwork.Chat.JobRuns
import NfNetwork.Chat.JobSystem

/-! Several calls of `Set` make one signal. It is enough that a thread that has enqueued a job
has still to call `Set`, or has called it since the job thread last began to wait. -/
namespace NfNetwork.Chat

open Machinery

variable {Io P Node : Type} [DecidableEq P]

/-- After `Enqueue` and before `Set`. -/
def IoPlace.inWindow : IoPlace P → Bool
  | .set _ => true
  | _ => false

def Report.inWindow : Report → Bool
  | .set => true
  | .enqueue _ => false

def IoThread.inWindow (t : IoThread P) : Bool := t.place.inWindow || t.report.any Report.inWindow

def HeartbeatPlace.inWindow : HeartbeatPlace → Bool
  | .set => true
  | _ => false

/-- What a step of a producer does to the queue and the event: it is in its window, or the event
is set, or it was outside its window and left both alone. -/
def Wakes (g g' : Shared P Node) (before after : Bool) : Prop :=
  after = true ∨ g'.jobEvent = true ∨
    (g'.jobQueue = g.jobQueue ∧ g'.jobEvent = g.jobEvent ∧ before = false)

/-- A producer takes no job away. -/
def Keeps (g g' : Shared P Node) : Prop := g.jobQueue ≠ [] → g'.jobQueue ≠ []

section Producers

variable {g : Shared P Node}

omit [DecidableEq P] in
/-- A report adds a job and loses none. -/
theorem report_keeps (r : Report) : Keeps g (g.report r).1 := by
  cases r <;> simp [Keeps, Shared.report, Shared.enqueue, Shared.setJobEvent]

omit [DecidableEq P] in
/-- An IO thread does not report between its own `Enqueue` and `Set`. -/
theorem IoPlace.not_inWindow_of_mayReport {place : IoPlace P} (h : place.mayReport = true) :
    place.inWindow = false := by
  cases place <;> first | rfl | cases h

/-- Whoever enqueues is in the window until it has called `Set`. -/
theorem IoPlace.step_wakes {place : IoPlace P} {c : IoChoice P} {next : Shared P Node × IoPlace P}
    (h : place.step g c = some next) :
    Wakes g next.1 place.inWindow next.2.inWindow ∧ Keeps g next.1 := by
  fun_cases IoPlace.step g place c
  all_goals simp only [IoPlace.step, *, if_true, if_false, reduceCtorEq, Option.some.injEq] at h
  all_goals subst h
  all_goals
    simp [Wakes, Keeps, IoPlace.inWindow, IoPlace.next, Shared.rent, Shared.addRef, Shared.store,
      Shared.giveBack, Shared.enqueue, Shared.setJobEvent]

/-- The same for an IO thread with its reports. -/
theorem IoThread.step_wakes {t : IoThread P} {c : IoChoice P} {next : Shared P Node × IoThread P}
    (h : t.step g c = some next) :
    Wakes g next.1 t.inWindow next.2.inWindow ∧ Keeps g next.1 := by
  obtain ⟨r, hReport, rfl⟩ | ⟨sessionId, hReport, hMay, rfl⟩ | ⟨result, hReport, hStep, rfl⟩ :=
    IoThread.step_cases h
  case inl =>
    refine ⟨?_, report_keeps r⟩
    cases r with
    | enqueue sessionId => exact .inl (Bool.or_true _)
    | set => exact .inr (.inl rfl)
  case inr.inl =>
    refine ⟨.inr (.inr ⟨rfl, rfl, ?_⟩), id⟩
    rw [IoThread.inWindow, hReport]
    exact (Bool.or_false _).trans (IoPlace.not_inWindow_of_mayReport hMay)
  case inr.inr =>
    obtain ⟨hWakes, hKeeps⟩ := IoPlace.step_wakes hStep
    simpa [IoThread.inWindow, hReport] using ⟨hWakes, hKeeps⟩

omit [DecidableEq P] in
/-- And for the heartbeat thread. -/
theorem HeartbeatPlace.step_wakes {place : HeartbeatPlace}
    {next : Shared P Node × HeartbeatPlace} (h : place.step g = some next) :
    Wakes g next.1 place.inWindow next.2.inWindow ∧ Keeps g next.1 := by
  fun_cases HeartbeatPlace.step g place
  all_goals simp only [HeartbeatPlace.step, reduceCtorEq, Option.some.injEq] at h
  all_goals subst h
  all_goals
    simp [Wakes, Keeps, HeartbeatPlace.inWindow, Shared.enqueue, Shared.setJobEvent]

end Producers

section Consumers

variable {env : Env Node} {g : Shared P Node} [DecidableEq Node]

/-- The job thread waits again only when it has seen the queue empty. -/
theorem JobPlace.step_waits {place : JobPlace P} {next : Shared P Node × JobPlace P}
    (h : place.step env g = some next) :
    (next.2 = .waitOne → next.1.jobQueue = []) ∧
    (next.2 = .tryDequeue → next.1.jobQueue ≠ []) ∧
    (next.2 = .threw → place = .tryDequeue ∧ g.jobQueue = []) := by
  fun_cases JobPlace.step env g place
  all_goals simp only [JobPlace.step, *, if_true, if_false, reduceCtorEq, Option.some.injEq] at h
  all_goals subst h
  all_goals grind

/-- `OnQuit` takes jobs only once it has joined the job thread. -/
def QuitPlace.drains : QuitPlace P → Bool
  | .running | .setIsQuit | .setQuitEvent | .setJobEvent | .joinJob => false
  | _ => true

/-- `OnQuit` enqueues nothing; its `Set` wakes the job thread too. -/
theorem QuitPlace.step_wakes {place : QuitPlace P} {jobEnded heartbeatEnded : Bool}
    {next : Shared P Node × QuitPlace P}
    (h : place.step g jobEnded heartbeatEnded = some next) (hJob : place.drains = false) :
    Wakes g next.1 false false ∧ Keeps g next.1 := by
  cases place with
  | running | setIsQuit | setQuitEvent | setJobEvent =>
      obtain rfl := Option.some.inj h
      simp [Wakes, Keeps, Shared.setJobEvent]
  | joinJob =>
      obtain ⟨-, hNext⟩ := Option.ite_none_right_eq_some.mp h
      obtain rfl := Option.some.inj hNext
      simp [Wakes, Keeps]
  | joinHeartbeat | isEmpty | tryDequeue | handle | handled | tryFreeRecv | giveBack | ended =>
      cases hJob

/-- It drains the queue after it has joined the job thread. -/
theorem QuitPlace.drains_step {place : QuitPlace P} {jobEnded heartbeatEnded : Bool}
    {next : Shared P Node × QuitPlace P}
    (h : place.step g jobEnded heartbeatEnded = some next) (hDrains : next.2.drains = true) :
    place.drains = true ∨ jobEnded = true := by
  cases place with
  | running | setIsQuit | setQuitEvent | setJobEvent =>
      obtain rfl := Option.some.inj h
      cases hDrains
  | joinJob =>
      obtain ⟨hEnded, -⟩ := Option.ite_none_right_eq_some.mp h
      exact .inr hEnded
  | joinHeartbeat | isEmpty | tryDequeue | handle | handled | tryFreeRecv | giveBack | ended =>
      exact .inl rfl

end Consumers

namespace JobSystem

variable [DecidableEq Io] [DecidableEq Node]

omit [DecidableEq P] [DecidableEq Io] [DecidableEq Node] in
/-- A joined job thread has left its loop. -/
theorem of_jobEnded {s : JobSystem Io P Node} (h : s.jobEnded = true) : s.job.place = .ended := by
  rw [jobEnded] at h
  split at h
  · assumption
  · cases h

/-- A producer is between its `Enqueue` and its `Set`. -/
def InWindow (s : JobSystem Io P Node) : Prop :=
  (∃ i, (s.io i).inWindow = true) ∨ s.heartbeat.inWindow = true

structure Wakeful (s : JobSystem Io P Node) : Prop where
  waits : s.job.place = .waitOne → s.shared.jobQueue ≠ [] →
    s.shared.jobEvent = true ∨ s.InWindow
  dequeues : s.job.place = .tryDequeue → s.shared.jobQueue ≠ []
  works : s.job.place ≠ .threw
  reports : s.job.report.isSome → s.job.place.mayReport = true
  drains : s.quit.drains = true → s.job.place = .ended

variable {env : Env Node} {s s' : JobSystem Io P Node}

omit [DecidableEq P] [DecidableEq Io] [DecidableEq Node] in
/-- A producer's step wakes the job thread, or leaves it as well off as it was. -/
theorem Wakeful.produce {g : Shared P Node} (hInv : s.Wakeful) (hJob : s'.job = s.job)
    (hDrains : s'.quit.drains = true → s.job.place = .ended) (hShared : s'.shared = g)
    (hKeeps : Keeps s.shared g)
    (hWaits : g.jobEvent = true ∨ s'.InWindow ∨
      g.jobQueue = s.shared.jobQueue ∧ g.jobEvent = s.shared.jobEvent ∧
        (s.InWindow → s'.InWindow)) : s'.Wakeful := by
  subst hShared
  refine ⟨?_, ?_, hJob ▸ hInv.works, hJob ▸ hInv.reports, hJob ▸ hDrains⟩
  · intro hPlace hQueue
    rw [hJob] at hPlace
    obtain hEvent | hWindow | ⟨hSame, hEvent, hWindow⟩ := hWaits
    · exact .inl hEvent
    · exact .inr hWindow
    · rw [hSame] at hQueue
      rw [hEvent]
      exact (hInv.waits hPlace hQueue).imp_right hWindow
  · intro hPlace
    rw [hJob] at hPlace
    exact hKeeps (hInv.dequeues hPlace)

omit [DecidableEq P] [DecidableEq Io] [DecidableEq Node] in
/-- There is no job to begin with. -/
theorem wakeful_start (users : Node → ChatUser) (contents : P → Packet netLayout) :
    (start env users contents : JobSystem Io P Node).Wakeful where
  waits _ h := absurd rfl h
  dequeues h := nomatch h
  works h := nomatch h
  reports h := nomatch h
  drains h := nomatch h

/-- A job that an IO thread enqueues is covered by its window, and then by the event. -/
theorem Wakeful.io {i : Io} {c : IoChoice P} (hInv : s.Wakeful)
    (h : s.step env (.io i c) = some s') : s'.Wakeful := by
  obtain ⟨next, hStep, rfl⟩ := Option.map_eq_some_iff.mp h
  obtain ⟨hWakes, hKeeps⟩ := IoThread.step_wakes hStep
  refine hInv.produce rfl hInv.drains rfl hKeeps ?_
  obtain hAfter | hSet | ⟨hQueue, hEvent, hBefore⟩ := hWakes
  · refine .inr (.inl (.inl ⟨i, ?_⟩))
    show (Function.update s.io i next.2 i).inWindow = true
    rwa [Function.update_self]
  · exact .inl hSet
  · refine .inr (.inr ⟨hQueue, hEvent, ?_⟩)
    rintro (⟨i', hWindow⟩ | hHeartbeat)
    · have hOther : i' ≠ i := by
        rintro rfl
        cases hBefore.symm.trans hWindow
      refine .inl ⟨i', ?_⟩
      show (Function.update s.io i next.2 i').inWindow = true
      rwa [Function.update_of_ne hOther]
    · exact .inr hHeartbeat

/-- So is the heartbeat thread's. -/
theorem Wakeful.heartbeat (hInv : s.Wakeful) (h : s.step env .heartbeat = some s') :
    s'.Wakeful := by
  obtain ⟨next, hStep, rfl⟩ := Option.map_eq_some_iff.mp h
  obtain ⟨hWakes, hKeeps⟩ := HeartbeatPlace.step_wakes hStep
  refine hInv.produce rfl hInv.drains rfl hKeeps ?_
  obtain hAfter | hSet | ⟨hQueue, hEvent, hBefore⟩ := hWakes
  · exact .inr (.inl (.inr hAfter))
  · exact .inl hSet
  · refine .inr (.inr ⟨hQueue, hEvent, ?_⟩)
    rintro (hIo | hWindow)
    · exact .inl hIo
    · cases hBefore.symm.trans hWindow

/-- The job thread goes to wait with the queue empty, or somebody is in the window, or the event is
set. -/
theorem Wakeful.job {reports : Option Nat} (hInv : s.Wakeful)
    (h : s.step env (.job reports) = some s') : s'.Wakeful := by
  obtain ⟨next, hStep, rfl⟩ := Option.map_eq_some_iff.mp h
  obtain ⟨r, hReport, rfl⟩ | ⟨sessionId, hReport, hMay, rfl⟩ | ⟨result, hReport, hPlace, rfl⟩ :=
    JobThread.step_cases env hStep
  case inl =>
    have hMay := hInv.reports (Option.isSome_of_eq_some hReport)
    refine ⟨fun hPlace => ?_, fun hPlace => report_keeps r (hInv.dequeues hPlace), hInv.works,
      fun _ => hMay, hInv.drains⟩
    rw [show s.job.place = .waitOne from hPlace] at hMay
    cases hMay
  case inr.inl =>
    exact ⟨hInv.waits, hInv.dequeues, hInv.works, fun _ => hMay, hInv.drains⟩
  case inr.inr =>
    obtain ⟨hWaits, hDequeues, hThrew⟩ := JobPlace.step_waits hPlace
    refine ⟨fun hNext hQueue => absurd (hWaits hNext) hQueue, hDequeues, ?_, nofun, ?_⟩
    · intro hNext
      obtain ⟨hPrior, hQueue⟩ := hThrew hNext
      exact hInv.dequeues hPrior hQueue
    · intro hDrains
      rw [hInv.drains hDrains] at hPlace
      cases hPlace

/-- `OnQuit` leaves all this alone until the job thread is gone. -/
theorem Wakeful.quit (hInv : s.Wakeful) (h : s.step env .quit = some s') : s'.Wakeful := by
  obtain ⟨next, hStep, rfl⟩ := Option.map_eq_some_iff.mp h
  cases hDrains : s.quit.drains with
  | true =>
      have hEnded := hInv.drains hDrains
      refine ⟨fun hPlace => ?_, fun hPlace => ?_, hInv.works, hInv.reports, fun _ => hEnded⟩
      · cases hEnded.symm.trans hPlace
      · cases hEnded.symm.trans hPlace
  | false =>
      obtain ⟨hWakes, hKeeps⟩ := QuitPlace.step_wakes hStep hDrains
      refine hInv.produce rfl ?_ rfl hKeeps ?_
      · intro hAfter
        obtain hBefore | hEnded := QuitPlace.drains_step hStep hAfter
        · cases hDrains.symm.trans hBefore
        · exact of_jobEnded hEnded
      · obtain hAfter | hSet | ⟨hQueue, hEvent, -⟩ := hWakes
        · cases hAfter
        · exact .inl hSet
        · exact .inr (.inr ⟨hQueue, hEvent, id⟩)

/-- The run lemma. -/
theorem Reached.wakeful {users : Node → ChatUser} {contents : P → Packet netLayout}
    {Guard : JobSystem Io P Node → JobAction Io P → Prop}
    (h : Reached env users contents Guard s) : s.Wakeful := by
  refine Reachable.invariant (wakeful_start users contents) ?_ h
  intro s s' a _ hInv _ hStep
  cases a with
  | io i c => exact hInv.io hStep
  | heartbeat => exact hInv.heartbeat hStep
  | job reports => exact hInv.job hStep
  | quit => exact hInv.quit hStep

/-- Whatever the threads do, no job waits with nobody to wake the job thread, and what `IsEmpty`
promises `TryDequeue` finds. -/
theorem no_job_left_waiting {users : Node → ChatUser} {contents : P → Packet netLayout}
    (h : Reached env users contents (fun _ _ => True) s) :
    ¬ (s.shared.jobQueue ≠ [] ∧ s.job.place = .waitOne ∧ s.shared.jobEvent = false ∧
      ¬ s.InWindow) ∧
    (s.job.place = .tryDequeue → s.shared.jobQueue ≠ []) ∧ s.job.place ≠ .threw := by
  have hInv := Reached.wakeful h
  refine ⟨?_, hInv.dequeues, hInv.works⟩
  intro ⟨hQueue, hPlace, hEvent, hWindow⟩
  obtain hSet | hIn := hInv.waits hPlace hQueue
  · cases hEvent.symm.trans hSet
  · exact hWindow hIn

/-- An IO thread delivers a heartbeat and the heartbeat thread adds its own. The two calls of
`Set` are one signal, and the job thread has come to the second job. -/
private def twoSets : List (JobAction (Fin 1) (Fin 1)) := [
  .io 0 (.allocRecv ⟨0, 1⟩), .io 0 .go, .io 0 (.decoded (clientPacket [7, 0])), .io 0 .go,
  .io 0 .go, .io 0 .go, .io 0 .go, .io 0 .go, .heartbeat, .heartbeat, .io 0 .go, .heartbeat,
  .job none, .job none, .job none, .job none, .io 0 .go, .job none, .job none, .job none,
  .job none, .job none]

/-- Two calls of `Set` before one wait; both jobs are found. -/
theorem no_job_left_waiting_twoSets :
    ∃ s, exec (step zeroEnv) (start zeroEnv (fun _ => zeroUser) fun _ => clientPacket []) twoSets =
        some s ∧
      ¬ (s.shared.jobQueue ≠ [] ∧ s.job.place = .waitOne ∧ s.shared.jobEvent = false ∧
        ¬ s.InWindow) ∧
      (s.job.place = .tryDequeue → s.shared.jobQueue ≠ []) ∧ s.job.place ≠ .threw := by
  have hRun : (exec (step zeroEnv) (start zeroEnv (fun _ => zeroUser) fun _ => clientPacket [])
      twoSets).isSome = true := by decide +kernel
  obtain ⟨s, hSome⟩ := Option.isSome_iff_exists.mp hRun
  exact ⟨s, hSome, no_job_left_waiting (reachable_of_exec hSome)⟩

end JobSystem

end NfNetwork.Chat
