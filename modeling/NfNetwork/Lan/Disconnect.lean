import NfNetwork.Lan.IoCount
import NfNetwork.Lan.SessionManager

/-! `LanCore::Disconnect` goes straight to the compare-exchange of `TryRelease`, which fails while
anything of the session is pending. -/
namespace NfNetwork.Lan

open Machinery

variable {ioThreads callers poolSize : Nat}

namespace LanSessionManager

variable {m : LanSessionManager poolSize} {k : Fin poolSize} {id : Nat}

/-- The id is of the session in slot `k`, which is live. -/
structure Live (m : LanSessionManager poolSize) (k : Fin poolSize) (id : Nat) : Prop where
  index : LanSession.sessionIndex id = k
  id : (m.sessionPool k).lanSessionId = id
  isReleased : (m.sessionPool k).isReleased = false

/-- `Disconnect` of a live session is an attempt to release it. -/
theorem Live.disconnect (h : m.Live k id) : m.disconnect id = some (m.tryRemoveSession k) := by
  have hInPool : LanSession.sessionIndex id < poolSize := h.index ▸ k.isLt
  obtain rfl : k = ⟨_, hInPool⟩ := Fin.ext h.index.symm
  rw [LanSessionManager.disconnect, dif_pos hInPool, if_neg (not_not.mpr h.id)]

/-- Which succeeds if nobody has a reference. -/
theorem Live.releasable_iff (h : m.Live k id) :
    (m.sessionPool k).releasable = true ↔ (m.sessionPool k).ioCount = 0 := by
  simp [LanSession.releasable, h.isReleased]

/-- Otherwise it releases the session and gives its index back. -/
theorem Live.tryRemoveSession_of_idle (h : m.Live k id) (hCount : (m.sessionPool k).ioCount = 0) :
    m.tryRemoveSession k = ⟨true, [.released, .pushed k, .onDisconnected id], { m with
      sessionPool := Function.update m.sessionPool k { m.sessionPool k with isReleased := true }.release
      unusedSessionIndexes := k :: m.unusedSessionIndexes
      connectedSessionCount := m.connectedSessionCount - 1 }⟩ := by
  simp [tryRemoveSession, LanSession.tryRelease, h.releasable_iff.mpr hCount, h.id, h.index]

/-- `Release` does not touch the flag. -/
theorem LanSession.release_isReleased (session : LanSession) :
    session.release.isReleased = session.isReleased := by
  unfold LanSession.release LanSession.finishSending LanSession.cancelationIo
  split <;> rfl

end LanSessionManager

namespace Server

variable {s s' : Server ioThreads callers poolSize} {t : Thread ioThreads callers}
  {rest : List (Frame poolSize)} {k : Fin poolSize} {slot slot' : Slot}

/-- The server with one slot and the stack of one thread replaced. -/
def withSlot (s : Server ioThreads callers poolSize) (t : Thread ioThreads callers) (k : Fin poolSize)
    (slot : Slot) (stack : List (Frame poolSize)) : Server ioThreads callers poolSize :=
  { s with
    slots := Function.update s.slots k slot
    threads := Function.update s.threads t stack }

/-- A step that changes nothing but its slot. -/
theorem Alone.within {pc : SlotPc} {next : List SlotPc}
    (hStep : pc.step slot .ok = some { slot := slot', next := next })
    (hLater : (s.withSlot t k slot' (next.map (.on k) ++ rest)).Alone t s') :
    (s.withSlot t k slot (.on k pc :: rest)).Alone t s' := by
  have hSlot : (s.withSlot t k slot (.on k pc :: rest)).slots k = slot := Function.update_self ..
  refine .on (Function.update_self ..) (hSlot.symm ▸ hStep) ?_
  have hSame : (s.withSlot t k slot (.on k pc :: rest)).apply t rest k { slot := slot', next := next } =
      s.withSlot t k slot' (next.map (.on k) ++ rest) := by
    simp [apply, withSlot, effectFrames]
  rw [hSame]
  exact hLater

/-- A thread that runs alone through `CancelationIO`, -/
theorem alone_cancelationIo
    (hLater : (s.withSlot t k (slot.set slot.session.cancelationIo) rest).Alone t s') :
    (s.withSlot t k slot (.on k .cancelationIo :: rest)).Alone t s' := by
  by_cases hClosed : slot.session.isCloseSocket = true
  · rw [LanSession.cancelationIo, if_pos hClosed] at hLater
    exact .within (if_pos hClosed) hLater
  · rw [LanSession.cancelationIo, if_neg hClosed] at hLater
    exact .within (if_neg hClosed) (.within rfl hLater)

/-- through the loop that frees the packets sent, -/
theorem alone_free {i n : Nat} (hLeft : slot.session.packetCount = i + n)
    (hLater : (s.withSlot t k slot (.on k (.finishSending .resetCount) :: rest)).Alone t s') :
    (s.withSlot t k slot (.on k (.finishSending (.free i)) :: rest)).Alone t s' := by
  induction n generalizing i with
  | zero =>
      have hDone : ¬ i < slot.session.packetCount := by omega
      have hStep : SlotPc.step slot .ok (.finishSending (.free i)) =
          goto slot [.finishSending .resetCount] := by
        simp [SlotPc.step, FinishPc.step, hDone]
      exact .within hStep hLater
  | succ n ih =>
      have hMore : i < slot.session.packetCount := by omega
      have hStep : SlotPc.step slot .ok (.finishSending (.free i)) =
          goto slot [.finishSending (.free (i + 1))] := by
        simp [SlotPc.step, FinishPc.step, hMore]
      exact .within hStep (ih (by omega))

/-- through `FinishSending`, -/
theorem alone_finishSending
    (hLater : (s.withSlot t k (slot.set slot.session.finishSending) rest).Alone t s') :
    (s.withSlot t k slot (.on k (.finishSending (.free 0)) :: rest)).Alone t s' :=
  alone_free (Nat.zero_add _).symm (.within rfl (.within rfl hLater))

/-- through the loop that empties the queue, -/
theorem alone_drain {sendQueue : List Nat} (hQueue : slot.session.sendQueue = sendQueue)
    (hLater : (s.withSlot t k (slot.set
      { slot.session with sendQueue := [], lanSessionId := 0, packetCount := 0 }) rest).Alone t s') :
    (s.withSlot t k slot (.on k .drainCheck :: rest)).Alone t s' := by
  induction sendQueue generalizing slot with
  | nil =>
      have hStep : SlotPc.step slot .ok .drainCheck = goto slot [.clearId] := by
        simp [SlotPc.step, hQueue]
      rw [← hQueue] at hLater
      exact .within hStep (.within rfl (.within rfl hLater))
  | cons packet sendQueue ih =>
      have hStep : SlotPc.step slot .ok .drainCheck = goto slot [.drainDequeue] := by
        simp [SlotPc.step, hQueue]
      have hDequeue : SlotPc.step slot .ok .drainDequeue =
          update slot { slot.session with sendQueue := sendQueue } [.drainCheck] := by
        simp [SlotPc.step, hQueue]
      exact .within hStep (.within hDequeue (ih rfl hLater))

/-- and so through all of `Release`. -/
theorem alone_release
    (hLater : (s.withSlot t k (slot.set slot.session.release) rest).Alone t s') :
    (s.withSlot t k slot (.on k .cancelationIo :: .on k (.finishSending (.free 0)) ::
      .on k .drainCheck :: rest)).Alone t s' :=
  alone_cancelationIo (alone_finishSending (alone_drain rfl hLater))

/-- The server after thread `t` has released the session in slot `k` and reported it. -/
def released (s : Server ioThreads callers poolSize) (t : Thread ioThreads callers)
    (k : Fin poolSize) (rest : List (Frame poolSize)) (id index : Nat) :
    Server ioThreads callers poolSize where
  slots := Function.update s.slots k
    ((s.slots k).set { (s.slots k).session with isReleased := true }.release)
  unusedSessionIndexes := index :: s.unusedSessionIndexes
  sessionUidAcc := s.sessionUidAcc
  connectedSessionCount := s.connectedSessionCount - 1
  history := s.history ++ [(k, .released), (k, .pushed index), (k, .onDisconnected id)]
  threads := Function.update s.threads t (.handler :: rest)

/-- A release that wins goes on to push the index and to report. -/
theorem alone_released {id index : Nat} (hReleasable : (s.slots k).session.releasable = true)
    (hTop : s.threads t = .on k (.tryRelease id index) :: rest) :
    s.Alone t (s.released t k rest id index) := by
  let slot := (s.slots k).set { (s.slots k).session with isReleased := true }
  let e : Effect := { slot := slot, next := releaseSteps id index, event := some .released }
  have hStart : s.apply t rest k e =
      { s with history := s.history ++ [(k, Event.released)] }.withSlot t k slot
        (.on k .cancelationIo :: .on k (.finishSending (.free 0)) :: .on k .drainCheck ::
          .on k (.push index) :: .on k .countDisconnected :: .on k (.notify id) :: rest) := by
    simp [apply, withSlot, effectFrames, releaseSteps, e]
  refine .on hTop (e := e) (if_pos hReleasable) (hStart ▸ alone_release ?_)
  refine .on (Function.update_self ..) rfl (.on (Function.update_self ..) rfl
    (.on (Function.update_self ..) rfl ?_))
  convert Alone.refl using 1
  simp [released, apply, withSlot, effectFrames]
  exact ⟨rfl, Int.sub_eq_add_neg⟩

/-- A thread that runs alone did what a call returned: the manager and the history are those of
the call, and a handler runs if it has to report. -/
structure Did (s s' : Server ioThreads callers poolSize) (t : Thread ioThreads callers)
    (k : Fin poolSize) (rest : List (Frame poolSize)) (result : Disconnection poolSize) : Prop where
  alone : s.Alone t s'
  manager : s'.manager = result.manager
  history : s'.history = s.history ++ result.events.map (k, ·)
  threads : s'.threads t = (if result.returned then [.handler] else []) ++ rest

/-- A step that only goes on. -/
theorem alone_goto {pc : SlotPc} {next : List SlotPc} (hTop : s.threads t = .on k pc :: rest)
    (hStep : pc.step (s.slots k) .ok = goto (s.slots k) next) :
    s.Alone t (s.setThread t (next.map (.on k) ++ rest)) := by
  refine .on hTop hStep ?_
  convert Alone.refl using 1
  simp [apply, setThread, effectFrames]

/-- The id is read before the exchange. -/
theorem alone_tryRelease (hTop : s.threads t = .on k .readId :: rest) :
    s.Alone t (s.setThread t (.on k (.tryRelease (s.slots k).session.lanSessionId
      (LanSession.sessionIndex (s.slots k).session.lanSessionId)) :: rest)) := by
  let reading := s.setThread t (.on k (.readIndex (s.slots k).session.lanSessionId) :: rest)
  have hId : s.Alone t reading := alone_goto hTop rfl
  have hBoth := hId.trans (alone_goto (s := reading) (Function.update_self ..) rfl)
  simp only [reading, setThread, Function.update_idem] at hBoth ⊢
  exact hBoth

/-- The manager of a server with one slot replaced. -/
theorem sessionPool_update (slots : Fin poolSize → Slot) (k : Fin poolSize) (slot : Slot) :
    (fun k' => (Function.update slots k slot k').session) =
      Function.update (fun k' => (slots k').session) k slot.session := by
  funext k'
  by_cases hk : k' = k
  · subst hk
    simp
  · simp [hk]

/-- Step by step `TryRemoveSession` does what it does in one. -/
theorem did_tryRemoveSession (hTop : s.threads t = .on k .readId :: rest) :
    ∃ s', s.Did s' t k rest (s.manager.tryRemoveSession k) := by
  have hTry := alone_tryRelease hTop
  by_cases hReleasable : (s.slots k).session.releasable = true
  · have hResult : s.manager.tryRemoveSession k =
        ⟨true, [.released, .pushed (LanSession.sessionIndex (s.slots k).session.lanSessionId),
          .onDisconnected (s.slots k).session.lanSessionId],
          (s.released t k rest (s.slots k).session.lanSessionId
            (LanSession.sessionIndex (s.slots k).session.lanSessionId)).manager⟩ := by
      simp [LanSessionManager.tryRemoveSession, LanSession.tryRelease, manager, hReleasable, released,
        sessionPool_update]
    have hReleased := hTry.trans (alone_released hReleasable (Function.update_self ..))
    rw [hResult]
    exact ⟨_, hReleased, rfl, rfl, Function.update_self ..⟩
  · have hResult : s.manager.tryRemoveSession k = ⟨false, [], s.manager⟩ := by
      simp [LanSessionManager.tryRemoveSession, LanSession.tryRelease, manager, hReleasable]
    have hFails := hTry.trans (alone_goto (Function.update_self ..) (if_neg hReleasable))
    rw [hResult]
    exact ⟨_, hFails, rfl, (List.append_nil _).symm, Function.update_self ..⟩

/-- A thread that calls `Disconnect` and runs alone does what `disconnect` does. -/
theorem did_disconnect {id : Nat} (hIndex : LanSession.sessionIndex id = k)
    (hTop : s.threads t = .on k (.disconnectCheckId id) :: rest) :
    ∃ s' result, s.manager.disconnect id = some result ∧ s.Did s' t k rest result := by
  have hInPool : LanSession.sessionIndex id < poolSize := hIndex ▸ k.isLt
  obtain rfl : k = ⟨_, hInPool⟩ := Fin.ext hIndex.symm
  rw [LanSessionManager.disconnect, dif_pos hInPool]
  by_cases hId : (s.slots ⟨_, hInPool⟩).session.lanSessionId = id
  · have hStep : SlotPc.step (s.slots ⟨_, hInPool⟩) .ok (.disconnectCheckId id) =
        goto (s.slots ⟨_, hInPool⟩) [.readId] := by
      simp [SlotPc.step, hId]
    have hFound := alone_goto hTop hStep
    obtain ⟨s', hDid⟩ := did_tryRemoveSession
      (s := s.setThread t (.on ⟨_, hInPool⟩ .readId :: rest)) (Function.update_self ..)
    exact ⟨s', _, if_neg (not_not.mpr hId), hFound.trans hDid.alone, hDid.manager, hDid.history,
      hDid.threads⟩
  · have hStep : SlotPc.step (s.slots ⟨_, hInPool⟩) .ok (.disconnectCheckId id) =
        goto (s.slots ⟨_, hInPool⟩) [] := by
      simp [SlotPc.step, hId]
    exact ⟨_, _, if_pos hId, alone_goto hTop hStep, rfl, (List.append_nil _).symm,
      Function.update_self ..⟩

end Server

end NfNetwork.Lan
