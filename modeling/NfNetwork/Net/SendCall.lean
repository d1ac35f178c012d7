import NfNetwork.Net.IoCount
import NfNetwork.Net.ReadySending

/-! The exits of `ReadySending` and of `SendPacket`, by a return or by an
exception, while the other threads go on. The send queue may hold any number of
packets; every exit is right as long as no `ReadySending` samples more packets
than fit into one send. -/
namespace NfNetwork.Net

open Machinery

section SendPacket

/-- The places of `SendPacket` and `Disconnect`, with all that they call. -/
def SlotPc.inCall : SlotPc → Bool
  | .findId _ _ | .findClosed _ _ | .findReleased _ _ | .acquireIncrement _ _
  | .acquireCheckId _ _ | .acquireCheckReleased _ _ | .enqueueClosed _ _ | .enqueueReleased _ _
  | .addRef _ _ | .enqueue _ _ | .disconnect _ | .sendPost (.sendPacket _) _
  | .returned (.sendPacket _) | .decrement | .readId | .checkReleased _ | .tryRelease _
  | .release _ _ | .notify _ | .finishSending (.release _) _ | .threw => true
  | _ => false

/-- A call stays among its places and takes no completion up. -/
theorem SlotPc.step_inCall {slot : Slot} {env : Env} {pc : SlotPc} {e : Effect}
    (h : pc.step slot env = some e) (hCall : pc.inCall = true) :
    (∀ pc' ∈ e.next, pc'.inCall = true) ∧ e.slot.pendingRecv = slot.pendingRecv := by
  cases pc
  case sendPost caller pc =>
    cases caller with
    | ioThread => cases hCall
    | sendPacket id =>
        cases pc
        case wsaSend => cases env <;> cases h <;> simp [inCall]
        all_goals simp only [SlotPc.step, SendPostPc.step, goto, update] at h
        all_goals repeat' split at h
        all_goals cases h
        all_goals simp [inCall]
  case returned caller =>
    cases caller with
    | ioThread => cases hCall
    | sendPacket id =>
        cases h
        simp [inCall]
  case release id pc =>
    cases pc <;> simp only [SlotPc.step, ReleasePc.step, goto, update] at h
    all_goals repeat' split at h
    all_goals cases h
    all_goals simp [inCall]
  case finishSending caller pc =>
    cases caller with
    | ioThread => cases hCall
    | release id =>
        cases pc <;> simp only [SlotPc.step, FinishPc.step, goto, update] at h
        all_goals repeat' split at h
        all_goals cases h
        all_goals simp [inCall]
  case acquireCheckReleased id purpose =>
    cases h
    cases purpose <;> split <;> simp [Purpose.acquired, inCall]
  case findId | findClosed | findReleased | acquireIncrement | acquireCheckId | enqueueClosed
      | enqueueReleased | addRef | enqueue | disconnect | decrement | readId | checkReleased
      | notify =>
    cases h
    simp only [Slot.set]
    repeat' split
    all_goals simp [inCall]
  case tryRelease id =>
    simp only [SlotPc.step, goto] at h
    split at h <;> cases h <;> simp [inCall]
  case threw => cases h
  all_goals cases hCall

/-- What the session's count holds beyond the sends that are posted. -/
def Slot.ownCount (slot : Slot) : Int := slot.session.ioCount - slot.pendingSend

/-- A step of a call changes it by what the call's places hold. -/
theorem SlotPc.step_ownCount {slot : Slot} {env : Env} {pc : SlotPc} {e : Effect}
    (h : pc.step slot env = some e) (hCall : pc.inCall = true) :
    e.slot.ownCount - slot.ownCount = (e.next.map SlotPc.holds).sum - pc.holds := by
  have hKept : pc.label slot ≠ .drop := by
    intro hLabel
    obtain ⟨_, kind, transferred, rfl⟩ := SlotPc.label_drop hLabel
    cases hCall
  have hSurplus := SlotPc.step_surplus h hKept
  have hRecv := (SlotPc.step_inCall h hCall).2
  unfold Slot.ownCount
  omega

end SendPacket

variable {ioThreads callers poolSize : Nat}

/-- A frame of a call, or of the user code that the call's callback runs. -/
def Frame.inCall : Frame poolSize → Bool
  | .handler => true
  | .on _ pc => pc.inCall
  | _ => false

/-- The counts of session `k` that a frame holds. -/
def Frame.holdsAt (k : Fin poolSize) : Frame poolSize → Nat
  | .on j pc => if j = k then pc.holds else 0
  | _ => 0

namespace Server

variable {s s' : Server ioThreads callers poolSize} {t t' : Thread ioThreads callers}
  {choice : Choice poolSize} {k : Fin poolSize} {rest : List (Frame poolSize)}
  {Guard : Server ioThreads callers poolSize → Thread ioThreads callers × Choice poolSize → Prop}

/-- What a step of thread `t` adds to the count of session `k`, less the send that
it posts. -/
def ownCount (t : Thread ioThreads callers) (k : Fin poolSize) (s : Server ioThreads callers poolSize)
    (a : Thread ioThreads callers × Choice poolSize) (s' : Server ioThreads callers poolSize) : Int :=
  if a.1 = t then (s'.slots k).ownCount - (s.slots k).ownCount else 0

/-- The runs from the entry of a call of thread `t`, below which its stack is
`rest`, at most to its exit. They keep what the call itself added to the count. -/
abbrev Calls
    (Guard : Server ioThreads callers poolSize → Thread ioThreads callers × Choice poolSize → Prop)
    (t : Thread ioThreads callers) (k : Fin poolSize) (rest : List (Frame poolSize))
    (s : Server ioThreads callers poolSize) : Server ioThreads callers poolSize × Int → Prop :=
  Reachable (Takes (tallied step (ownCount t k)))
    (fun c a => Guard c.1 a ∧ (a.1 = t → c.1.threads t ≠ rest)) (s, 0)

/-- The call returned to `rest`, or it threw. -/
def Exited (s : Server ioThreads callers poolSize) (t : Thread ioThreads callers)
    (rest : List (Frame poolSize)) : Prop :=
  s.threads t = rest ∨ ∃ k pc below, s.threads t = .on k pc :: below ∧
    (pc = .threw ∨ ∃ caller, pc = .sendPost caller .threw)

/-- At every exit of a `SendPacket` that starts here its own count is given back. -/
def GivesBack
    (Guard : Server ioThreads callers poolSize → Thread ioThreads callers × Choice poolSize → Prop)
    (s : Server ioThreads callers poolSize) : Prop :=
  ∀ t k id packet rest, s.threads t = .on k (.findId id (.sendPacket packet)) :: rest →
    ∀ s' n, Calls Guard t k rest s (s', n) → s'.Exited t rest → n = 0

/-- A step of a thread that stands at a session is a step of its place. -/
theorem step_on {pc : SlotPc} (hTop : s.threads t = .on k pc :: rest)
    (h : s.step (t, choice) = some s') :
    ∃ env e, pc.step (s.slots k) env = some e ∧ s' = s.apply t rest k e := by
  rw [step, hTop] at h
  cases choice with
  | env env =>
      simp only [stepFrame, Option.bind_eq_bind, Option.bind_eq_some_iff] at h
      obtain ⟨e, hStep, hServer⟩ := h
      cases hServer
      exact ⟨env, e, hStep, rfl⟩
  | call | completion => cases h

theorem apply_slots_self {e : Effect} : (s.apply t rest k e).slots k = e.slot :=
  Function.update_self ..

/-- What the frames of a call above `rest` hold is what the call added to the count. -/
def InCall (t : Thread ioThreads callers) (k : Fin poolSize) (rest : List (Frame poolSize))
    (c : Server ioThreads callers poolSize × Int) : Prop :=
  ∃ above, c.1.threads t = above ++ rest ∧ (∀ frame ∈ above, frame.inCall = true) ∧
    c.2 = ((above.map (Frame.holdsAt k)).sum : Nat)

/-- The other threads' stacks stay. -/
theorem Advance.threads_of_ne (h : s.Advance t choice s') (ht : t' ≠ t) :
    s'.threads t' = s.threads t' := by
  cases h <;> exact Function.update_of_ne ht ..

theorem holdsAt_map (j : Fin poolSize) (pcs : List SlotPc) :
    ((pcs.map (Frame.on j)).map (Frame.holdsAt k)).sum =
      if j = k then (pcs.map SlotPc.holds).sum else 0 := by
  rw [List.map_map]
  split <;> rename_i hj <;> simp [Function.comp_def, Frame.holdsAt, hj]

/-- The step lemma for the thread of the call. -/
theorem step_inCall {frame : Frame poolSize} (hTop : s.threads t = frame :: rest)
    (hCall : frame.inCall = true) (h : s.step (t, choice) = some s') :
    ∃ next, s'.threads t = next ++ rest ∧ (∀ frame ∈ next, frame.inCall = true) ∧
      (s'.slots k).ownCount - (s.slots k).ownCount =
        ((next.map (Frame.holdsAt k)).sum : Nat) - (frame.holdsAt k : Int) := by
  cases frame with
  | handler =>
      rw [step, hTop] at h
      cases choice with
      | env env =>
          cases h
          exact ⟨[], Function.update_self .., by simp, by simp [setThread, Frame.holdsAt]⟩
      | call id purpose =>
          simp only [stepFrame, call] at h
          split at h <;> cases h
          refine ⟨[.on _ (.findId id purpose), .handler], Function.update_self .., ?_, ?_⟩
          · simp [Frame.inCall, SlotPc.inCall]
          · simp [setThread, Frame.holdsAt, SlotPc.holds]
      | completion => cases h
  | on j pc =>
      obtain ⟨env, e, hPc, rfl⟩ := step_on hTop h
      refine ⟨(if e.callsHandler then [.handler] else []) ++ e.next.map (Frame.on j),
        by simp [apply], ?_, ?_⟩
      · intro frame hMem
        rcases List.mem_append.mp hMem with hHandler | hNext
        · split at hHandler <;> simp at hHandler
          rw [hHandler]
          rfl
        · obtain ⟨pc', hPc', rfl⟩ := List.mem_map.mp hNext
          exact (SlotPc.step_inCall hPc hCall).1 pc' hPc'
      · have hHandler : (((if e.callsHandler then [.handler] else []) : List (Frame poolSize)).map
            (Frame.holdsAt k)).sum = 0 := by
          split <;> rfl
        rw [List.map_append, List.sum_append, hHandler, holdsAt_map]
        by_cases hj : j = k
        · subst hj
          have hCount := SlotPc.step_ownCount hPc hCall
          rw [apply_slots_self, if_pos rfl, Frame.holdsAt, if_pos rfl]
          omega
        · simp [apply, Function.update_of_ne (Ne.symm hj), Frame.holdsAt, hj]
  | acceptDecide | acceptPop | acceptEnded => cases hCall

/-- A step of the call moves the sum with its frames, a step of another thread neither. -/
theorem InCall.step {c c' : Server ioThreads callers poolSize × Int}
    {a : Thread ioThreads callers × Choice poolSize} (h : InCall t k rest c)
    (hInside : a.1 = t → c.1.threads t ≠ rest)
    (hStep : tallied Server.step (ownCount t k) c a = some c') : InCall t k rest c' := by
  obtain ⟨s', hNext, rfl⟩ := Option.map_eq_some_iff.mp hStep
  obtain ⟨above, hStack, hCall, hCount⟩ := h
  by_cases ht : a.1 = t
  · cases above with
    | nil => exact absurd hStack (hInside ht)
    | cons frame above =>
        obtain ⟨t', choice⟩ := a
        obtain rfl : t' = t := ht
        obtain ⟨next, hStack', hCall', hCount'⟩ :=
          step_inCall (k := k) hStack (hCall frame List.mem_cons_self) hNext
        refine ⟨next ++ above, hStack'.trans (List.append_assoc next above rest).symm, ?_, ?_⟩
        · intro frame' hMem
          rcases List.mem_append.mp hMem with hNew | hOld
          · exact hCall' frame' hNew
          · exact hCall frame' (List.mem_cons_of_mem _ hOld)
        · rw [List.map_cons, List.sum_cons] at hCount
          rw [List.map_append, List.sum_append, hCount, ownCount, if_pos rfl, hCount']
          omega
  · refine ⟨above, ?_, hCall, ?_⟩
    · rw [(step_advance hNext).threads_of_ne (Ne.symm ht)]
      exact hStack
    · rw [ownCount, if_neg ht, add_zero]
      exact hCount

/-- A session with a send in flight, at which no thread works. -/
def SendInFlight (s : Server 1 1 1) : Prop :=
  s.threads (.caller 0) = [] ∧ s.threads (.io 0) = [] ∧ (s.slots 0).session.netSessionId = 1 ∧
    (s.slots 0).session.isCloseSocket = false ∧ (s.slots 0).session.isReleased = false ∧
    (s.slots 0).session.ioCount = 2 ∧ (s.slots 0).session.isSending = 2 ∧
    (s.slots 0).session.packetCount = 1 ∧ (s.slots 0).pendingSend = 1

instance (s : Server 1 1 1) : Decidable s.SendInFlight :=
  inferInstanceAs (Decidable (_ ∧ _))

/-- A further packet only goes into the queue. -/
theorem SendInFlight.queue {s : Server 1 1 1} (h : s.SendInFlight) :
    ∃ s', exec step s ((.caller 0, .call 1 (.sendPacket 8)) :: goes (.caller 0) 12) = some s' ∧
      s'.SendInFlight ∧
      (s'.slots 0).session.sendQueue = (s.slots 0).session.sendQueue ++ [8] := by
  obtain ⟨hCaller, hThread, hSame, hOpen, hLive, hCount, hSending, hPackets, hPending⟩ := h
  have hIndex : NetSession.sessionIndexOf 1 = 0 := by decide
  simp [goes, List.replicate, exec, step, stepIdle, stepFrame, call, setThread, apply, hIndex,
    hCaller, hThread, hSame, hOpen, hLive, hCount, hSending, hPackets, hPending, SlotPc.step,
    SendPostPc.step, Purpose.acquired, goto, update, SendInFlight]

/-- While a send is in flight any number of packets can gather in the queue. -/
theorem sendInFlight_reached (n : Nat) :
    ∃ s : Server 1 1 1, Reached (fun _ _ => True) s ∧ s.SendInFlight ∧
      (s.slots 0).session.sendQueue.length = n := by
  induction n with
  | zero =>
      have hRun : (exec step (start 1 1 1) (goes .accept 24 ++
          (.caller 0, .call 1 (.sendPacket 7)) :: goes (.caller 0) 25)).map
          (fun s => decide (s.SendInFlight ∧ (s.slots 0).session.sendQueue.length = 0)) =
            some true := by
        decide +kernel
      obtain ⟨s, hExec, hState⟩ := Option.map_eq_some_iff.mp hRun
      exact ⟨s, reachable_of_exec hExec, of_decide_eq_true hState⟩
  | succ n ih =>
      obtain ⟨s, hReached, hInFlight, hLength⟩ := ih
      obtain ⟨s', hExec, hInFlight', hQueue⟩ := hInFlight.queue
      refine ⟨s', hReached.trans (reachable_of_exec hExec), hInFlight', ?_⟩
      rw [hQueue, List.length_append, hLength, List.length_singleton]

/-- The completion leaves the flag free before anything looks at the queue, and a
caller begins its call. -/
theorem SendInFlight.finish {s : Server 1 1 1} (h : s.SendInFlight) :
    ∃ s', exec step s ((.io 0, .completion 0 .send (.succeeded 5)) :: goes (.io 0) 7 ++
        [(.caller 0, .call 1 (.sendPacket 8))]) = some s' ∧
      s'.threads (.caller 0) = [.on 0 (.findId 1 (.sendPacket 8))] ∧
      (s'.slots 0).session = { (s.slots 0).session with isSending := 0, packetCount := 0 } := by
  obtain ⟨hCaller, hThread, hSame, hOpen, hLive, hCount, hSending, hPackets, hPending⟩ := h
  have hIndex : NetSession.sessionIndexOf 1 = 0 := by decide
  simp [goes, List.replicate, exec, step, stepIdle, stepFrame, call, setThread, apply, hIndex,
    Slot.takeCompletion, hCaller, hThread, hSame, hOpen, hLive, hCount, hSending, hPackets, hPending,
    SlotPc.step, FinishPc.step, NetSession.exchangeSending, goto, update]

end Server

end NfNetwork.Net
