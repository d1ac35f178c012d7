import NfNetwork.Chat.JobRuns
import NfNetwork.Chat.PacketReferences

/-! However the threads interleave, the chat goes through one run of jobs, so what the runs of
jobs promise holds of the server. -/
namespace NfNetwork.Chat

open Machinery

variable {Io P Node : Type}

section Handled

variable [DecidableEq P] [DecidableEq Node] {env : Env Node} {g : Shared P Node}

/-- The chat is what its job thread made of the handled jobs, one after another. -/
def Shared.Replays (env : Env Node) (users : Node → ChatUser) (g : Shared P Node) : Prop :=
  processJobs env (.new env users) g.handled = .ok g.chat

/-- Only a handler changes the chat. -/
def Shared.SameChat (g g' : Shared P Node) : Prop := g'.chat = g.chat ∧ g'.handled = g.handled

omit [DecidableEq P] in
theorem Shared.Replays.congr {users : Node → ChatUser} {g' : Shared P Node}
    (h : g.Replays env users) (hSame : g.SameChat g') : g'.Replays env users := by
  rw [Shared.Replays, hSame.1, hSame.2]
  exact h

omit [DecidableEq P] [DecidableEq Node] in
theorem report_sameChat (r : Report) : g.SameChat (g.report r).1 := by
  cases r with
  | enqueue | set => exact ⟨rfl, rfl⟩

omit [DecidableEq Node] in
theorem IoPlace.step_sameChat {place : IoPlace P} {c : IoChoice P}
    {next : Shared P Node × IoPlace P} (h : place.step g c = some next) : g.SameChat next.1 := by
  fun_cases IoPlace.step g place c
  all_goals simp only [IoPlace.step, *, if_true, if_false, reduceCtorEq, Option.some.injEq] at h
  all_goals subst h
  all_goals exact ⟨rfl, rfl⟩

omit [DecidableEq Node] in
theorem IoThread.step_sameChat {t : IoThread P} {c : IoChoice P}
    {next : Shared P Node × IoThread P} (h : t.step g c = some next) : g.SameChat next.1 := by
  obtain ⟨r, -, rfl⟩ | ⟨sessionId, -, -, rfl⟩ | ⟨result, -, hStep, rfl⟩ := IoThread.step_cases h
  · exact report_sameChat r
  · exact ⟨rfl, rfl⟩
  · exact IoPlace.step_sameChat hStep

omit [DecidableEq P] [DecidableEq Node] in
theorem HeartbeatPlace.step_sameChat {place : HeartbeatPlace}
    {next : Shared P Node × HeartbeatPlace} (h : place.step g = some next) : g.SameChat next.1 := by
  cases place with
  | waitOne | enqueue | set =>
      obtain rfl := Option.some.inj h
      exact ⟨rfl, rfl⟩
  | ended => cases h

omit [DecidableEq P] in
theorem Shared.Replays.handle {users : Node → ChatUser} (h : g.Replays env users) {job : Job}
    {chat : EventHandler Node} (hJob : processJob env g.chat job = .ok chat) :
    processJobs env (.new env users) (g.handled ++ [job]) = .ok chat := by
  rw [processJobs_append_singleton, show processJobs env (.new env users) g.handled = _ from h]
  exact hJob

theorem JobPlace.step_replays {users : Node → ChatUser} (hReplays : g.Replays env users)
    {place : JobPlace P} {next : Shared P Node × JobPlace P} (h : place.step env g = some next) :
    next.1.Replays env users := by
  fun_cases JobPlace.step env g place
  all_goals simp only [JobPlace.step, *, if_true, if_false, reduceCtorEq, Option.some.injEq] at h
  all_goals subst h
  case case8 job chat hJob => exact hReplays.handle hJob
  all_goals exact hReplays

theorem JobThread.step_replays {users : Node → ChatUser} (hReplays : g.Replays env users)
    {t : JobThread P} {reports : Option Nat} {next : Shared P Node × JobThread P}
    (h : t.step env g reports = some next) : next.1.Replays env users := by
  obtain ⟨r, -, rfl⟩ | ⟨sessionId, -, -, rfl⟩ | ⟨result, -, hStep, rfl⟩ :=
    JobThread.step_cases env h
  · exact hReplays.congr (report_sameChat r)
  · exact hReplays
  · exact JobPlace.step_replays hReplays hStep

/-- `OnQuit` runs the handler of a disconnect as the job thread would. -/
theorem processJob_of_disconnect {job : Job} {s s' : EventHandler Node}
    (hType : job.jobType = .SystemDisconnectUser)
    (h : jobSystemDisconnectUser job s = .ok ⟨⟩ s') : processJob env s job = .ok s' := by
  rw [processJob, handleJob, hType]
  simp only [h]

theorem QuitPlace.step_replays {users : Node → ChatUser} (hReplays : g.Replays env users)
    {place : QuitPlace P} {jobEnded heartbeatEnded : Bool} {next : Shared P Node × QuitPlace P}
    (h : place.step g jobEnded heartbeatEnded = some next) : next.1.Replays env users := by
  fun_cases QuitPlace.step g jobEnded heartbeatEnded place
  all_goals simp only [QuitPlace.step, *, if_true, if_false, reduceCtorEq, Option.some.injEq] at h
  case case12 job hType _ chat hJob =>
    subst h
    exact hReplays.handle (processJob_of_disconnect hType hJob)
  all_goals
    subst h
    exact hReplays

end Handled

namespace JobSystem

variable [DecidableEq Io] [DecidableEq P] [DecidableEq Node] {env : Env Node}
  {s : JobSystem Io P Node} {users : Node → ChatUser} {contents : P → Packet netLayout}
  {Guard : JobSystem Io P Node → JobAction Io P → Prop}

theorem step_replays {s' : JobSystem Io P Node} {a : JobAction Io P}
    (hReplays : s.shared.Replays env users) (h : s.step env a = some s') :
    s'.shared.Replays env users := by
  cases a with
  | io i c =>
      obtain ⟨next, hNext, rfl⟩ := Option.map_eq_some_iff.mp h
      exact hReplays.congr (IoThread.step_sameChat hNext)
  | heartbeat =>
      obtain ⟨next, hNext, rfl⟩ := Option.map_eq_some_iff.mp h
      exact hReplays.congr (HeartbeatPlace.step_sameChat hNext)
  | job reports =>
      obtain ⟨next, hNext, rfl⟩ := Option.map_eq_some_iff.mp h
      exact JobThread.step_replays hReplays hNext
  | quit =>
      obtain ⟨next, hNext, rfl⟩ := Option.map_eq_some_iff.mp h
      exact QuitPlace.step_replays hReplays hNext

/-- Whatever the threads do, the chat is that of one run of its jobs. -/
theorem Reached.replays (h : Reached env users contents Guard s) : s.shared.Replays env users := by
  induction h with
  | refl => rfl
  | tail _ _ hLast ih => exact step_replays ih hLast

/-- What holds of the chat after any sequence of jobs holds between any two steps. -/
theorem Reached.sound (h : Reached env users contents Guard s)
    (hMoves : MovesInGrid env (.new env users) s.shared.handled) : Sound s.shared.chat :=
  sound_of_processJobs (new_sound env users) hMoves h.replays

end JobSystem

end NfNetwork.Chat
