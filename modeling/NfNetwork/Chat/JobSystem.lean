import Mathlib.Data.Fintype.Basic
import NfNetwork.Chat.EventHandler
import NfNetwork.Machinery.Transition

/-! The threads around the chat: any number of IO threads that deliver packets and report
disconnects (the accept thread is one that only reports), the heartbeat thread, the job thread,
and the thread that stops the server and runs `OnQuit`. Each access to something shared is a step; `mJobQueue` is atomic. A call of
`CrashDump::Crash` ends the process and has no step, and the monitor thread shares nothing. -/
namespace NfNetwork.Chat

open Machinery

variable {Io P Node : Type}

/-- A receive packet: `mRefCount`, what it holds, and whether the pool has lent it. -/
structure RecvPacket where
  refCount : Int
  contents : Packet netLayout
  rented : Bool

inductive PoolEvent (P : Type) where
  | rented (p : P)
  | returned (p : P)
  deriving DecidableEq

/-- A `Job`, with the address of its packet. -/
structure QueuedJob (P : Type) where
  jobType : eJobType
  sessionId : Nat
  recvPacket : Option P

/-- What the threads share. `history` is the log of the receive pool, `handled` that of the jobs
whose handler has run. -/
structure Shared (P Node : Type) where
  isQuit : Bool
  quitEvent : Bool
  jobEvent : Bool
  jobQueue : List (QueuedJob P)
  packets : P → RecvPacket
  history : List (PoolEvent P)
  chat : EventHandler Node
  handled : List Job

/-- A packet under way, and the session it came from. -/
structure Delivery (P : Type) where
  packet : P
  sessionId : Nat

/-- `OnDisconnected`, as far as it has come. -/
inductive Report where
  | enqueue (sessionId : Nat)
  | set
  deriving DecidableEq

/-- Where an IO thread is. The first three places of a packet are in `NetworkRecvCompleted`,
the others up to `set` in `OnReceived`; `crash` is whether an exception follows. -/
inductive IoPlace (P : Type) where
  | idle
  | addRef (d : Delivery P)
  | fill (d : Delivery P)
  | onReceived (d : Delivery P)
  | peekBody (d : Delivery P)
  | disconnect (d : Delivery P)
  | addRefReceived (d : Delivery P) (jobType : eJobType)
  | checkRefCount (d : Delivery P) (jobType : eJobType) (refCount : Int)
  | enqueue (d : Delivery P) (jobType : eJobType)
  | set (d : Delivery P)
  | tryFreeRecv (d : Delivery P) (crash : Bool)
  | giveBack (d : Delivery P) (crash : Bool)
  | threw
  | ended

/-- `report` is the `OnDisconnected` that the thread is in, on top of its place. -/
structure IoThread (P : Type) where
  place : IoPlace P
  report : Option Report

inductive HeartbeatPlace where
  | waitOne
  | enqueue
  | set
  | ended
  deriving DecidableEq

inductive JobPlace (P : Type) where
  | waitOne
  | checkIsQuit
  | isEmpty
  | tryDequeue
  | handle (job : QueuedJob P)
  | handled (job : QueuedJob P)
  | tryFreeRecv (p : P)
  | giveBack (p : P)
  | threw
  | ended

structure JobThread (P : Type) where
  place : JobPlace P
  report : Option Report

inductive QuitPlace (P : Type) where
  | running
  | setIsQuit
  | setQuitEvent
  | setJobEvent
  | joinJob
  | joinHeartbeat
  | isEmpty
  | tryDequeue
  | handle (job : QueuedJob P)
  | handled (job : QueuedJob P)
  | tryFreeRecv (p : P)
  | giveBack (p : P)
  | ended

/-- What decides the step of an IO thread where the code alone does not. -/
inductive IoChoice (P : Type) where
  | go
  | allocRecv (d : Delivery P)
  | decoded (contents : Packet netLayout)
  | undecodable
  | report (sessionId : Nat)
  | close

/-- The type `OnReceived` peeks. -/
def receivedJobType (recvPacket : Packet netLayout) : eJobType :=
  match recvPacket.peekBody [0, 0] 2 with
  | some (2, packetType) => getJobTypeFromPacketType (scalarOf packetType)
  | _ => .INVALID

namespace Shared

variable [DecidableEq P] (g : Shared P Node)

def enqueue (job : QueuedJob P) : Shared P Node := { g with jobQueue := g.jobQueue ++ [job] }

def setJobEvent : Shared P Node := { g with jobEvent := true }

/-- `InterlockedIncrement64` or `InterlockedDecrement64` of `mRefCount`. -/
def addRef (p : P) (n : Int) : Shared P Node :=
  let packet := { g.packets p with refCount := (g.packets p).refCount + n }
  { g with packets := Function.update g.packets p packet }

/-- `Rent` of the receive pool, with the constructor. -/
def rent (p : P) : Shared P Node :=
  let packet := { g.packets p with refCount := 0, rented := true }
  { g with packets := Function.update g.packets p packet, history := g.history ++ [.rented p] }

/-- `Return`. -/
def giveBack (p : P) : Shared P Node :=
  let packet := { g.packets p with rented := false }
  { g with packets := Function.update g.packets p packet, history := g.history ++ [.returned p] }

def store (p : P) (contents : Packet netLayout) : Shared P Node :=
  let packet := { g.packets p with contents := contents }
  { g with packets := Function.update g.packets p packet }

/-- The job as its handler sees it. -/
def load (job : QueuedJob P) : Job :=
  ⟨job.jobType, job.sessionId, job.recvPacket.map fun p => (g.packets p).contents⟩

/-- One step of `OnDisconnected`. -/
def report : Report → Shared P Node × Option Report
  | .enqueue sessionId => (g.enqueue ⟨.SystemDisconnectUser, sessionId, none⟩, some .set)
  | .set => (g.setJobEvent, none)

end Shared

section Steps

variable [DecidableEq P] [DecidableEq Node] (env : Env Node) (g : Shared P Node)

/-- Where a thread goes on after its `TryFreeRecv` of this packet. -/
def IoPlace.next (crash : Bool) : IoPlace P := if crash then .threw else .idle

/-- One step outside `OnDisconnected`. The pool lends a packet that it has. -/
def IoPlace.step : IoPlace P → IoChoice P → Option (Shared P Node × IoPlace P)
  | .idle, .allocRecv d => if (g.packets d.packet).rented then none else some (g.rent d.packet, .addRef d)
  | .idle, .close => some (g, .ended)
  | .addRef d, .go => some (g.addRef d.packet 1, .fill d)
  | .fill d, .decoded contents => some (g.store d.packet contents, .onReceived d)
  | .fill d, .undecodable => some (g, .tryFreeRecv d false)
  | .onReceived d, .go => some (g, if g.isQuit then .tryFreeRecv d false else .peekBody d)
  | .peekBody d, .go =>
    let jobType := receivedJobType (g.packets d.packet).contents
    some (g, if jobType = .INVALID then .disconnect d else .addRefReceived d jobType)
  | .disconnect d, .go => some (g, .tryFreeRecv d false)
  | .addRefReceived d jobType, .go =>
    some (g.addRef d.packet 1, .checkRefCount d jobType ((g.packets d.packet).refCount + 1))
  | .checkRefCount d jobType refCount, .go =>
    some (g, if refCount ≠ 2 then .tryFreeRecv d true else .enqueue d jobType)
  | .enqueue d jobType, .go => some (g.enqueue ⟨jobType, d.sessionId, some d.packet⟩, .set d)
  | .set d, .go => some (g.setJobEvent, .tryFreeRecv d false)
  | .tryFreeRecv d crash, .go =>
    some (g.addRef d.packet (-1),
      if (g.packets d.packet).refCount - 1 = 0 then .giveBack d crash else .next crash)
  | .giveBack d crash, .go => some (g.giveBack d.packet, .next crash)
  | _, _ => none

/-- Where a session may be released: between completions, and in `mSender.Disconnect`. -/
def IoPlace.mayReport : IoPlace P → Bool
  | .idle | .disconnect _ => true
  | _ => false

def IoThread.step (t : IoThread P) (c : IoChoice P) : Option (Shared P Node × IoThread P) :=
  match t.report, c with
  | some r, .go => some ((g.report r).1, ⟨t.place, (g.report r).2⟩)
  | some _, _ => none
  | none, .report sessionId =>
    if t.place.mayReport then some (g, ⟨t.place, some (.enqueue sessionId)⟩) else none
  | none, c => (t.place.step g c).map fun next => (next.1, ⟨next.2, none⟩)

omit [DecidableEq Node] in
/-- A thread reports, begins to, or takes the step of its place. -/
theorem IoThread.step_cases {g : Shared P Node} {t : IoThread P} {c : IoChoice P}
    {next : Shared P Node × IoThread P} (h : t.step g c = some next) :
    (∃ r, t.report = some r ∧ next = ((g.report r).1, ⟨t.place, (g.report r).2⟩)) ∨
    (∃ sessionId, t.report = none ∧ t.place.mayReport = true ∧
      next = (g, ⟨t.place, some (.enqueue sessionId)⟩)) ∨
    ∃ result, t.report = none ∧ t.place.step g c = some result ∧
      next = (result.1, ⟨result.2, none⟩) := by
  obtain ⟨place, _ | r⟩ := t
  case some =>
    cases c with
    | go => exact .inl ⟨r, rfl, (Option.some.inj h).symm⟩
    | allocRecv | decoded | undecodable | report | close => cases h
  case none =>
    cases c with
    | report sessionId =>
        obtain ⟨hMay, hNext⟩ := Option.ite_none_right_eq_some.mp h
        exact .inr (.inl ⟨sessionId, rfl, hMay, (Option.some.inj hNext).symm⟩)
    | go | allocRecv | decoded | undecodable | close =>
        obtain ⟨result, hResult, hNext⟩ := Option.map_eq_some_iff.mp h
        exact .inr (.inr ⟨result, rfl, hResult, hNext.symm⟩)

/-- A wait that is not ended by `mQuitEvent` times out. -/
def HeartbeatPlace.step : HeartbeatPlace → Option (Shared P Node × HeartbeatPlace)
  | .waitOne => some (g, if g.quitEvent then .ended else .enqueue)
  | .enqueue => some (g.enqueue ⟨.SystemHeartBeat, 0, none⟩, .set)
  | .set => some (g.setJobEvent, .waitOne)
  | .ended => none

/-- One step of `ThreadProcessJob`. The handler runs in one step, before or after the calls of
`OnDisconnected` that it makes; if it is undefined there is no step. -/
def JobPlace.step : JobPlace P → Option (Shared P Node × JobPlace P)
  | .waitOne => if g.jobEvent then some ({ g with jobEvent := false }, .checkIsQuit) else none
  | .checkIsQuit => some (g, if g.isQuit then .ended else .isEmpty)
  | .isEmpty => some (g, if g.jobQueue = [] then .waitOne else .tryDequeue)
  | .tryDequeue => match g.jobQueue with
    | [] => some (g, .threw)
    | job :: later => some ({ g with jobQueue := later }, .handle job)
  | .handle job => match processJob env g.chat (g.load job) with
    | .error _ => none
    | .ok chat => some ({ g with chat := chat, handled := g.handled ++ [g.load job] }, .handled job)
  | .handled job => some (g, match job.recvPacket with
    | none => .isEmpty
    | some p => .tryFreeRecv p)
  | .tryFreeRecv p =>
    some (g.addRef p (-1), if (g.packets p).refCount - 1 = 0 then .giveBack p else .isEmpty)
  | .giveBack p => some (g.giveBack p, .isEmpty)
  | .threw | .ended => none

def JobPlace.mayReport : JobPlace P → Bool
  | .handle _ | .handled _ => true
  | _ => false

def JobThread.step (t : JobThread P) (reports : Option Nat) :
    Option (Shared P Node × JobThread P) :=
  match t.report, reports with
  | some r, none => some ((g.report r).1, ⟨t.place, (g.report r).2⟩)
  | some _, some _ => none
  | none, some sessionId =>
    if t.place.mayReport then some (g, ⟨t.place, some (.enqueue sessionId)⟩) else none
  | none, none => (t.place.step env g).map fun next => (next.1, ⟨next.2, none⟩)

theorem JobThread.step_cases {g : Shared P Node} {t : JobThread P} {reports : Option Nat}
    {next : Shared P Node × JobThread P} (h : t.step env g reports = some next) :
    (∃ r, t.report = some r ∧ next = ((g.report r).1, ⟨t.place, (g.report r).2⟩)) ∨
    (∃ sessionId, t.report = none ∧ t.place.mayReport = true ∧
      next = (g, ⟨t.place, some (.enqueue sessionId)⟩)) ∨
    ∃ result, t.report = none ∧ t.place.step env g = some result ∧
      next = (result.1, ⟨result.2, none⟩) := by
  obtain ⟨place, _ | r⟩ := t
  case some =>
    cases reports with
    | none => exact .inl ⟨r, rfl, (Option.some.inj h).symm⟩
    | some sessionId => cases h
  case none =>
    cases reports with
    | some sessionId =>
        obtain ⟨hMay, hNext⟩ := Option.ite_none_right_eq_some.mp h
        exact .inr (.inl ⟨sessionId, rfl, hMay, (Option.some.inj hNext).symm⟩)
    | none =>
        obtain ⟨result, hResult, hNext⟩ := Option.map_eq_some_iff.mp h
        exact .inr (.inr ⟨result, rfl, hResult, hNext.symm⟩)

/-- One step of `OnQuit`, which joins the job thread and the heartbeat thread. -/
def QuitPlace.step (jobEnded heartbeatEnded : Bool) : QuitPlace P → Option (Shared P Node × QuitPlace P)
  | .running => some (g, .setIsQuit)
  | .setIsQuit => some ({ g with isQuit := true }, .setQuitEvent)
  | .setQuitEvent => some ({ g with quitEvent := true }, .setJobEvent)
  | .setJobEvent => some (g.setJobEvent, .joinJob)
  | .joinJob => if jobEnded then some (g, .joinHeartbeat) else none
  | .joinHeartbeat => if heartbeatEnded then some (g, .isEmpty) else none
  | .isEmpty => some (g, if g.jobQueue = [] then .ended else .tryDequeue)
  | .tryDequeue => match g.jobQueue with
    | [] => some (g, .isEmpty)
    | job :: later => some ({ g with jobQueue := later }, .handle job)
  | .handle job =>
    if job.jobType = .SystemDisconnectUser then
      match jobSystemDisconnectUser (g.load job) g.chat with
      | .ok _ chat => some ({ g with chat := chat, handled := g.handled ++ [g.load job] }, .handled job)
      | .error _ _ => none
    else some (g, .handled job)
  | .handled job => some (g, match job.recvPacket with
    | none => .isEmpty
    | some p => .tryFreeRecv p)
  | .tryFreeRecv p =>
    some (g.addRef p (-1), if (g.packets p).refCount - 1 = 0 then .giveBack p else .isEmpty)
  | .giveBack p => some (g.giveBack p, .isEmpty)
  | .ended => none

end Steps

/-- The server around the chat. -/
structure JobSystem (Io P Node : Type) where
  shared : Shared P Node
  io : Io → IoThread P
  heartbeat : HeartbeatPlace
  job : JobThread P
  quit : QuitPlace P

inductive JobAction (Io P : Type) where
  | io (i : Io) (c : IoChoice P)
  | heartbeat
  | job (reports : Option Nat)
  | quit

namespace JobSystem

/-- After `OnInitialized`; the packets hold whatever they hold. -/
def start (env : Env Node) (users : Node → ChatUser) (contents : P → Packet netLayout) :
    JobSystem Io P Node where
  shared := {
    isQuit := false
    quitEvent := false
    jobEvent := false
    jobQueue := []
    packets := fun p => ⟨0, contents p, false⟩
    history := []
    chat := .new env users
    handled := [] }
  io _ := ⟨.idle, none⟩
  heartbeat := .waitOne
  job := ⟨.waitOne, none⟩
  quit := .running

variable [DecidableEq Io] [DecidableEq P] [DecidableEq Node] (env : Env Node)

def jobEnded (s : JobSystem Io P Node) : Bool :=
  match s.job.place with
  | .ended => true
  | _ => false

/-- One step of one thread. -/
def step (s : JobSystem Io P Node) : JobAction Io P → Option (JobSystem Io P Node)
  | .io i c => ((s.io i).step s.shared c).map fun next =>
      { s with shared := next.1, io := Function.update s.io i next.2 }
  | .heartbeat => (s.heartbeat.step s.shared).map fun next =>
      { s with shared := next.1, heartbeat := next.2 }
  | .job reports => (s.job.step env s.shared reports).map fun next =>
      { s with shared := next.1, job := next.2 }
  | .quit => (s.quit.step s.shared s.jobEnded (s.heartbeat = .ended)).map fun next =>
      { s with shared := next.1, quit := next.2 }

/-- The runs from a fresh start. -/
abbrev Reached (users : Node → ChatUser) (contents : P → Packet netLayout)
    (Guard : JobSystem Io P Node → JobAction Io P → Prop) (s : JobSystem Io P Node) : Prop :=
  Reachable (Takes (step env)) Guard (start env users contents) s

end JobSystem

end NfNetwork.Chat
