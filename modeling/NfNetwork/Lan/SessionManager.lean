import NfNetwork.Lan.Server
import NfNetwork.Machinery.Loop

/-! `LanSessionManager` and `LanCore::Disconnect`, called while no other thread is in their
code: a call is a function of the sessions, the unused indexes and the counters. A thread of
the server that runs alone does the same. -/
namespace NfNetwork.Lan

open Machinery

namespace LanSession

variable (session : LanSession)

def init (id : Nat) : LanSession :=
  { session with
    lanSessionId := id
    hasSocket := true
    isCloseSocket := false
    isReleased := false
    ioCount := 0
    sendQueue := []
    isSending := 0 }

def cancelationIo : LanSession :=
  if session.isCloseSocket then session
  else { session with isCloseSocket := true, hasSocket := false }

def finishSending : LanSession :=
  { session with packetCount := 0, isSending := session.isSending - 1 }

/-- `Release`, whose loop empties the send queue. -/
def release : LanSession :=
  { session.cancelationIo.finishSending with sendQueue := [], lanSessionId := 0, packetCount := 0 }

def tryRelease : Bool × LanSession :=
  if session.releasable then (true, { session with isReleased := true }.release)
  else (false, session)

end LanSession

structure LanSessionManager (poolSize : Nat) where
  sessionPool : Fin poolSize → LanSession
  unusedSessionIndexes : List Nat
  sessionUidAcc : Nat
  connectedSessionCount : Int

/-- What `Disconnect` returns, and what the handler and the history see of it. -/
structure Disconnection (poolSize : Nat) where
  returned : Bool
  events : List Event
  manager : LanSessionManager poolSize

namespace LanSessionManager

variable {poolSize : Nat} (m : LanSessionManager poolSize)

/-- One pass of the loop of `GenUniqueSessionID`. -/
def uidPass (index : Fin poolSize) :
    Pass (LanSessionManager poolSize) (Nat × LanSessionManager poolSize) :=
  let sessionUidAcc := (m.sessionUidAcc + 1) % 2 ^ 32
  let uid := sessionUidAcc % 2 ^ 48
  let m := { m with sessionUidAcc := sessionUidAcc }
  if uid ≠ 0 ∧ uid ≠ LanSession.sessionUid (m.sessionPool index).lanSessionId then .leave (uid, m)
  else .again m

/-- `GenUniqueSessionID`. A `TryPop` that fails leaves the index at its initial value 0; an
index outside the pool has no session. -/
def genUniqueSessionId (passes : Nat) : Option (Nat × LanSessionManager poolSize) :=
  let index := m.unusedSessionIndexes.headD 0
  let m := { m with unusedSessionIndexes := m.unusedSessionIndexes.tail }
  if h : index < poolSize then do
    let (uid, m) ← loop (uidPass · ⟨index, h⟩) passes m
    some (LanSession.genSessionId index uid, m)
  else none

/-- `NewSessionOrNull`, whose result is a slot, or `nullptr`. -/
def newSessionOrNull (passes : Nat) : Option (Option (Fin poolSize) × LanSessionManager poolSize) := do
  let (sessionId, m) ← m.genUniqueSessionId passes
  if h : LanSession.sessionIndex sessionId < poolSize then
    let k : Fin poolSize := ⟨_, h⟩
    some (some k, { m with
      sessionPool := Function.update m.sessionPool k ((m.sessionPool k).init sessionId)
      connectedSessionCount := m.connectedSessionCount + 1 })
  else none

/-- `TryRemoveSession` of the core around `TryReleaseSession` of the manager. -/
def tryRemoveSession (k : Fin poolSize) : Disconnection poolSize :=
  let sessionId := (m.sessionPool k).lanSessionId
  let index := LanSession.sessionIndex (m.sessionPool k).lanSessionId
  let (isSuccessRelease, session) := (m.sessionPool k).tryRelease
  if isSuccessRelease then
    ⟨true, [.released, .pushed index, .onDisconnected sessionId], { m with
      sessionPool := Function.update m.sessionPool k session
      unusedSessionIndexes := index :: m.unusedSessionIndexes
      connectedSessionCount := m.connectedSessionCount - 1 }⟩
  else ⟨false, [], m⟩

/-- `LanCore::Disconnect`. An id outside the pool has no session. -/
def disconnect (sessionId : Nat) : Option (Disconnection poolSize) :=
  if h : LanSession.sessionIndex sessionId < poolSize then
    if (m.sessionPool ⟨_, h⟩).lanSessionId ≠ sessionId then some ⟨false, [], m⟩
    else some (m.tryRemoveSession ⟨_, h⟩)
  else none

end LanSessionManager

namespace Server

variable {ioThreads callers poolSize : Nat} {s s' s'' : Server ioThreads callers poolSize}
  {t : Thread ioThreads callers} {rest : List (Frame poolSize)} {k : Fin poolSize}

/-- The manager of a server. -/
def manager (s : Server ioThreads callers poolSize) : LanSessionManager poolSize where
  sessionPool k := (s.slots k).session
  unusedSessionIndexes := s.unusedSessionIndexes
  sessionUidAcc := s.sessionUidAcc
  connectedSessionCount := s.connectedSessionCount

theorem step_of_top {frame : Frame poolSize} {choice : Choice poolSize}
    (hTop : s.threads t = frame :: rest) :
    s.step (t, choice) = s.stepFrame t rest frame choice := by
  rw [step, hTop]

/-- Steps of one thread in which the environment answers `ok`. -/
def Alone (t : Thread ioThreads callers) (s s' : Server ioThreads callers poolSize) : Prop :=
  ∃ n, exec step s (goes t n) = some s'

theorem Alone.refl : Alone t s s := ⟨0, rfl⟩

theorem Alone.head (h : s.step (t, .env .ok) = some s') (hLater : Alone t s' s'') :
    Alone t s s'' := by
  obtain ⟨n, hExec⟩ := hLater
  refine ⟨n + 1, ?_⟩
  rw [goes, List.replicate_succ, exec, h]
  exact hExec

theorem Alone.trans (h : Alone t s s') (hLater : Alone t s' s'') : Alone t s s'' := by
  obtain ⟨n, hExec⟩ := h
  induction n generalizing s with
  | zero =>
      cases hExec
      exact hLater
  | succ n ih =>
      rw [goes, List.replicate_succ, exec] at hExec
      split at hExec
      · rename_i next hNext
        exact .head hNext (ih hExec)
      · cases hExec

/-- A step at a session. -/
theorem Alone.on {pc : SlotPc} {e : Effect} (hTop : s.threads t = .on k pc :: rest)
    (hStep : pc.step (s.slots k) .ok = some e) (hLater : Alone t (s.apply t rest k e) s'') :
    Alone t s s'' := by
  refine .head ((step_of_top hTop).trans ?_) hLater
  simp only [stepFrame, hStep]
  rfl

end Server

end NfNetwork.Lan
