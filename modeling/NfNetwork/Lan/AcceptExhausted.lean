import NfNetwork.Lan.SessionManager
import NfNetwork.Lan.SlotIndex

/-! `NewSessionOrNull` of the LAN session manager, which takes index 0 off an exhausted pool. -/
namespace NfNetwork.Lan

open Machinery

variable {ioThreads callers poolSize : Nat}

theorem sessionIndex_genSessionId_eq_mod (index uid : Nat) :
    LanSession.sessionIndex (LanSession.genSessionId index uid) = index % 2 ^ 16 := by
  simp only [LanSession.sessionIndex, LanSession.genSessionId]
  omega

namespace LanSessionManager

variable {m m' : LanSessionManager poolSize} {index k : Fin poolSize} {passes : Nat}

/-- The manager with the next number. -/
def counted (m : LanSessionManager poolSize) : LanSessionManager poolSize :=
  { m with sessionUidAcc := (m.sessionUidAcc + 1) % 2 ^ 32 }

/-- The next number is neither 0 nor the one of the session's last id. -/
def Accepts (m : LanSessionManager poolSize) (index : Fin poolSize) : Prop :=
  m.counted.sessionUidAcc % 2 ^ 48 ≠ 0 ∧
    m.counted.sessionUidAcc % 2 ^ 48 ≠ LanSession.sessionUid (m.sessionPool index).lanSessionId

theorem uidPass_of_accepts (h : m.Accepts index) :
    m.uidPass index = .leave (m.counted.sessionUidAcc % 2 ^ 48, m.counted) :=
  if_pos h

theorem uidPass_of_not_accepts (h : ¬ m.Accepts index) : m.uidPass index = .again m.counted :=
  if_neg h

/-- Of three numbers in a row one is accepted. -/
theorem accepts_of_three (hFirst : ¬ m.Accepts index) (hSecond : ¬ m.counted.Accepts index) :
    m.counted.counted.Accepts index := by
  simp only [Accepts, counted] at *
  omega

theorem loop_uidPass (m : LanSessionManager poolSize) (index : Fin poolSize) (passes : Nat) :
    ∃ uid sessionUidAcc, loop (uidPass · index) (passes + 3) m =
      some (uid, { m with sessionUidAcc := sessionUidAcc }) := by
  by_cases hFirst : m.Accepts index
  · exact ⟨_, _, loop_of_leave (uidPass_of_accepts hFirst) _⟩
  rw [loop_of_again (uidPass_of_not_accepts hFirst)]
  by_cases hSecond : m.counted.Accepts index
  · exact ⟨_, _, loop_of_leave (uidPass_of_accepts hSecond) _⟩
  rw [loop_of_again (uidPass_of_not_accepts hSecond)]
  exact ⟨_, _, loop_of_leave (uidPass_of_accepts (accepts_of_three hFirst hSecond)) _⟩

/-- The manager after session `k` was initialised. -/
def withInitialised (m : LanSessionManager poolSize) (k : Fin poolSize)
    (sessionId sessionUidAcc : Nat) (unusedSessionIndexes : List Nat) : LanSessionManager poolSize where
  sessionPool := Function.update m.sessionPool k ((m.sessionPool k).init sessionId)
  unusedSessionIndexes := unusedSessionIndexes
  sessionUidAcc := sessionUidAcc
  connectedSessionCount := m.connectedSessionCount + 1

/-- What `NewSessionOrNull` does once a number was accepted. -/
theorem newSessionOrNull_of_loop {uid sessionUidAcc : Nat}
    (h : m.unusedSessionIndexes.headD 0 < poolSize)
    (hLoop : loop (uidPass · ⟨_, h⟩) passes
      { m with unusedSessionIndexes := m.unusedSessionIndexes.tail } =
        some (uid, { m with
          unusedSessionIndexes := m.unusedSessionIndexes.tail
          sessionUidAcc := sessionUidAcc }))
    (hInPool : LanSession.sessionIndex
      (LanSession.genSessionId (m.unusedSessionIndexes.headD 0) uid) < poolSize) :
    m.newSessionOrNull passes = some (some ⟨_, hInPool⟩, m.withInitialised ⟨_, hInPool⟩
      (LanSession.genSessionId (m.unusedSessionIndexes.headD 0) uid) sessionUidAcc
      m.unusedSessionIndexes.tail) := by
  have hGenerated : m.genUniqueSessionId passes =
      some (LanSession.genSessionId (m.unusedSessionIndexes.headD 0) uid,
        { m with
          unusedSessionIndexes := m.unusedSessionIndexes.tail
          sessionUidAcc := sessionUidAcc }) := by
    rw [genUniqueSessionId]
    simp only [dif_pos h, hLoop]
    rfl
  rw [newSessionOrNull, hGenerated, Option.bind_eq_bind, Option.bind_some]
  dsimp only
  rw [dif_pos hInPool]
  rfl

theorem sessionIndex_lt_poolSize {index : Nat} (h : index < poolSize) (uid : Nat) :
    LanSession.sessionIndex (LanSession.genSessionId index uid) < poolSize := by
  rw [sessionIndex_genSessionId_eq_mod]
  exact (Nat.mod_le _ _).trans_lt h

/-- It initialises the session that the lower 16 bits of the index name, whether the stack had
an index or not. -/
theorem newSessionOrNull_eq (h : m.unusedSessionIndexes.headD 0 < poolSize) (passes : Nat) :
    ∃ (k : Fin poolSize) (sessionId sessionUidAcc : Nat),
      k.val = m.unusedSessionIndexes.headD 0 % 2 ^ 16 ∧
      m.newSessionOrNull (passes + 3) =
        some (some k, m.withInitialised k sessionId sessionUidAcc m.unusedSessionIndexes.tail) := by
  obtain ⟨uid, sessionUidAcc, hLoop⟩ :=
    loop_uidPass { m with unusedSessionIndexes := m.unusedSessionIndexes.tail } ⟨_, h⟩ passes
  exact ⟨_, _, sessionUidAcc, sessionIndex_genSessionId_eq_mod _ uid,
    newSessionOrNull_of_loop h hLoop (sessionIndex_lt_poolSize h uid)⟩

theorem newSessionOrNull_eq_none (h : ¬ m.unusedSessionIndexes.headD 0 < poolSize) :
    m.newSessionOrNull passes = none := by
  simp only [newSessionOrNull, genUniqueSessionId, h]
  rfl

/-- The slot is unused: its session is released and its index on the stack. -/
def Unused (m : LanSessionManager poolSize) (k : Fin poolSize) : Prop :=
  (m.sessionPool k).isReleased = true ∧ k.val ∈ m.unusedSessionIndexes

/-- `NewSessionOrNull` initialises an unused session and takes its index off the stack, or finds
none and changes nothing. -/
def TouchesNoLive (m : LanSessionManager poolSize) (passes : Nat) : Prop :=
  (∃ k sessionId sessionUidAcc, m.Unused k ∧
    m.newSessionOrNull passes =
      some (some k, m.withInitialised k sessionId sessionUidAcc (m.unusedSessionIndexes.erase k))) ∨
  ((∀ k, ¬ m.Unused k) ∧ ∃ sessionUidAcc,
    m.newSessionOrNull passes = some (none, { m with sessionUidAcc := sessionUidAcc }))

/-- The top of the stack is the index of a released session, and fits an id. -/
def TopUnused (m : LanSessionManager poolSize) : Prop :=
  ∃ k : Fin poolSize, m.unusedSessionIndexes.head? = some k.val ∧ k.val < 2 ^ 16 ∧
    (m.sessionPool k).isReleased = true

/-- Taking another element than the head off a list leaves the head. -/
theorem eq_head_of_tail_eq_erase {indexes : List Nat} {index : Nat} (hMem : index ∈ indexes)
    (h : indexes.tail = indexes.erase index) : indexes.head? = some index := by
  cases indexes with
  | nil => cases hMem
  | cons head tail =>
      by_cases hHead : head = index
      · rw [hHead, List.head?_cons]
      · have hCount := congrArg (List.count head) h
        rw [List.tail_cons, List.count_erase_of_ne hHead, List.count_cons_self] at hCount
        omega

theorem touchesNoLive_iff (m : LanSessionManager poolSize) (passes : Nat) :
    m.TouchesNoLive (passes + 3) ↔ m.TopUnused := by
  constructor
  · intro hTouches
    by_cases hInPool : m.unusedSessionIndexes.headD 0 < poolSize
    · obtain ⟨k, sessionId, sessionUidAcc, hIndex, hNew⟩ := newSessionOrNull_eq hInPool passes
      rcases hTouches with ⟨k', sessionId', sessionUidAcc', hUnused, hNew'⟩ | ⟨_, sessionUidAcc', hNew'⟩
      · rw [hNew, Option.some.injEq, Prod.mk.injEq, Option.some.injEq] at hNew'
        obtain ⟨rfl, hManager⟩ := hNew'
        have hTop := eq_head_of_tail_eq_erase hUnused.2
          (congrArg LanSessionManager.unusedSessionIndexes hManager)
        have hLow : k.val < 2 ^ 16 := by
          rw [hIndex]
          exact Nat.mod_lt _ (by decide)
        exact ⟨k, hTop, hLow, hUnused.1⟩
      · rw [hNew] at hNew'
        cases hNew'
    · have hNone : m.newSessionOrNull (passes + 3) = none := newSessionOrNull_eq_none hInPool
      rcases hTouches with ⟨_, _, _, _, hNew⟩ | ⟨_, _, hNew⟩
      · rw [hNone] at hNew
        cases hNew
      · rw [hNone] at hNew
        cases hNew
  · rintro ⟨k, hTop, hLow, hReleased⟩
    obtain ⟨unused, hUnused⟩ := List.head?_eq_some_iff.mp hTop
    have hHead : m.unusedSessionIndexes.headD 0 = k.val := by rw [hUnused, List.headD_cons]
    obtain ⟨k', sessionId, sessionUidAcc, hIndex, hNew⟩ :=
      newSessionOrNull_eq (hHead ▸ k.isLt) passes
    obtain rfl : k' = k := by
      rw [hHead, Nat.mod_eq_of_lt hLow] at hIndex
      exact Fin.ext hIndex
    refine .inl ⟨k', sessionId, sessionUidAcc, ⟨hReleased, List.mem_of_mem_head? hTop⟩, ?_⟩
    rw [hNew, hUnused, List.tail_cons, List.erase_cons_head]

end LanSessionManager

namespace Server

variable {s s' : Server ioThreads callers poolSize} {t : Thread ioThreads callers}
  {rest : List (Frame poolSize)} {index k : Fin poolSize}

theorem step_checkUid_of_accepts {uid : Nat} (hTop : s.threads t = .checkUid index uid :: rest)
    (hAccepts : uid ≠ 0 ∧ uid ≠ LanSession.sessionUid (s.slots index).session.lanSessionId)
    (hInPool : LanSession.sessionIndex (LanSession.genSessionId index uid) < poolSize) :
    s.step (t, .env .ok) = some (s.setThread t
      ((initSteps (LanSession.genSessionId index uid)).map (.on ⟨_, hInPool⟩) ++ rest)) :=
  (step_of_top hTop).trans ((if_pos hAccepts).trans (dif_pos hInPool))

theorem step_checkUid_of_refuses {uid : Nat} (hTop : s.threads t = .checkUid index uid :: rest)
    (hRefuses : ¬ (uid ≠ 0 ∧ uid ≠ LanSession.sessionUid (s.slots index).session.lanSessionId)) :
    s.step (t, .env .ok) = some (s.setThread t (.nextUid index :: rest)) :=
  (step_of_top hTop).trans (if_neg hRefuses)

/-- The server after thread `t` has drawn the next number. -/
def counted (s : Server ioThreads callers poolSize) (t : Thread ioThreads callers)
    (index : Fin poolSize) (rest : List (Frame poolSize)) : Server ioThreads callers poolSize :=
  { s.setThread t (.checkUid index (s.manager.counted.sessionUidAcc % 2 ^ 48) :: rest) with
    sessionUidAcc := s.manager.counted.sessionUidAcc }

/-- The loop of `GenUniqueSessionID`, run by a thread. -/
theorem alone_uid {uid passes : Nat} {m : LanSessionManager poolSize}
    (hTop : s.threads t = .nextUid index :: rest)
    (hLoop : loop (LanSessionManager.uidPass · index) passes s.manager = some (uid, m))
    (hInPool : LanSession.sessionIndex (LanSession.genSessionId index uid) < poolSize) :
    ∃ s', s.Alone t s' ∧ s'.manager = m ∧ s'.threads t =
      (initSteps (LanSession.genSessionId index uid)).map (.on ⟨_, hInPool⟩) ++ rest := by
  induction passes generalizing s with
  | zero => cases hLoop
  | succ passes ih =>
      have hCount : s.step (t, .env .ok) = some (s.counted t index rest) := step_of_top hTop
      by_cases hAccepts : s.manager.Accepts index
      · rw [loop_of_leave (LanSessionManager.uidPass_of_accepts hAccepts)] at hLoop
        cases hLoop
        have hChosen := step_checkUid_of_accepts (s := s.counted t index rest)
          (Function.update_self ..) hAccepts hInPool
        exact ⟨_, .head hCount (.head hChosen .refl), rfl, Function.update_self ..⟩
      · rw [loop_of_again (LanSessionManager.uidPass_of_not_accepts hAccepts)] at hLoop
        have hRefused := step_checkUid_of_refuses (s := s.counted t index rest)
          (Function.update_self ..) hAccepts
        obtain ⟨s', hLater, hManager, hInit⟩ :=
          ih (s := (s.counted t index rest).setThread t (.nextUid index :: rest))
            (Function.update_self ..) hLoop
        exact ⟨s', .head hCount (.head hRefused hLater), hManager, hInit⟩

theorem alone_init {id : Nat} (hTop : s.threads t = (initSteps id).map (.on k) ++ rest) :
    ∃ s', s.Alone t s' ∧
      s'.manager = s.manager.withInitialised k id s.manager.sessionUidAcc
        s.manager.unusedSessionIndexes ∧
      s'.threads t = .on k .bind :: rest := by
  refine ⟨_, .on hTop rfl (.on (Function.update_self ..) rfl (.on (Function.update_self ..) rfl
    (.on (Function.update_self ..) rfl (.on (Function.update_self ..) rfl
    (.on (Function.update_self ..) rfl (.on (Function.update_self ..) rfl
    (.on (Function.update_self ..) rfl .refl))))))), ?_, Function.update_self ..⟩
  simp only [manager, LanSessionManager.withInitialised, LanSessionManager.mk.injEq]
  refine ⟨?_, rfl, rfl, ?_⟩
  · funext k'
    by_cases hk : k' = k
    · subst hk
      simp [apply, LanSession.init]
    · simp [apply, hk]
  · simp [apply]

/-- The server after thread `t` has taken an index. -/
def popped (s : Server ioThreads callers poolSize) (t : Thread ioThreads callers)
    (rest : List (Frame poolSize)) (h : s.popIndex < poolSize) : Server ioThreads callers poolSize :=
  { s.setThread t (.nextUid ⟨_, h⟩ :: rest) with
    unusedSessionIndexes := s.unusedSessionIndexes.tail
    history := s.history ++ [(⟨_, h⟩, .popped)] }

/-- An accept thread that runs alone does what `NewSessionOrNull` does. -/
theorem alone_newSessionOrNull (hTop : s.threads t = .tryPop :: rest) (h : s.popIndex < poolSize)
    (passes : Nat) :
    ∃ s' k, s.Alone t s' ∧ s.manager.newSessionOrNull (passes + 3) = some (some k, s'.manager) ∧
      s'.threads t = .on k .bind :: rest := by
  obtain ⟨uid, sessionUidAcc, hLoop⟩ :=
    LanSessionManager.loop_uidPass (s.popped t rest h).manager ⟨_, h⟩ passes
  have hInPool : LanSession.sessionIndex
      (LanSession.genSessionId (⟨s.popIndex, h⟩ : Fin poolSize).val uid) < poolSize :=
    LanSessionManager.sessionIndex_lt_poolSize h uid
  have hPop : s.step (t, .env .ok) = some (s.popped t rest h) :=
    (step_of_top hTop).trans (dif_pos h)
  obtain ⟨counted, hUid, hCounted, hInit⟩ :=
    alone_uid (Function.update_self ..) hLoop hInPool
  obtain ⟨s', hDone, hManager, hBind⟩ := alone_init hInit
  refine ⟨s', ⟨_, hInPool⟩, .head hPop (hUid.trans hDone), ?_, hBind⟩
  rw [hManager, hCounted]
  exact LanSessionManager.newSessionOrNull_of_loop (m := s.manager) h hLoop hInPool

/-- In such a run the top of the stack is unused whenever there is one. -/
theorem topUnused_iff (h : Reached FreshIndex s) :
    s.manager.TopUnused ↔ s.unusedSessionIndexes ≠ [] ∧ s.popIndex < 2 ^ 16 := by
  have hIndexed := indexed_of_freshIndex h
  cases hUnused : s.unusedSessionIndexes with
  | nil => simp [LanSessionManager.TopUnused, manager, hUnused]
  | cons index unused =>
      have hMem : index ∈ s.unusedSessionIndexes := by simp [hUnused]
      have hReleased := hIndexed.conserves.unused ⟨index, hIndexed.inPool index hMem⟩ hMem
      constructor
      · rintro ⟨k, hTop, hLow, _⟩
        change s.unusedSessionIndexes.head? = _ at hTop
        rw [hUnused, List.head?_cons, Option.some.injEq] at hTop
        rw [popIndex, hUnused, List.headD_cons, hTop]
        exact ⟨List.cons_ne_nil _ _, hLow⟩
      · rintro ⟨_, hLow⟩
        rw [popIndex, hUnused, List.headD_cons] at hLow
        refine ⟨⟨index, hIndexed.inPool index hMem⟩, ?_, hLow, hReleased⟩
        change s.unusedSessionIndexes.head? = _
        rw [hUnused, List.head?_cons]

/-- `NewSessionOrNull` leaves live sessions alone if and only if the top of the stack is the index
of a released session. While the indexes are conserved, that is if the stack is not empty. -/
theorem newSessionOrNull_touchesNoLive_iff (s : Server ioThreads callers poolSize) (passes : Nat) :
    (s.manager.TouchesNoLive (passes + 3) ↔ s.manager.TopUnused) ∧
      (Reached FreshIndex s → (s.manager.TouchesNoLive (passes + 3) ↔
        s.unusedSessionIndexes ≠ [] ∧ s.popIndex < 2 ^ 16)) := by
  refine ⟨LanSessionManager.touchesNoLive_iff _ _, ?_⟩
  intro h
  rw [LanSessionManager.touchesNoLive_iff, topUnused_iff h]

/-- One of two slots is live. -/
theorem newSessionOrNull_touchesNoLive_iff_half :
    ∃ s : Server 1 1 2, (s.slots 1).session.isReleased = false ∧ s.manager.TouchesNoLive 3 := by
  have hRun : (exec (checked releasesFresh step) (start 1 1 2) (goes .accept 21)).map
      (fun s => decide ((s.slots 1).session.isReleased = false ∧ s.unusedSessionIndexes = [0])) =
        some true := by
    decide +kernel
  obtain ⟨s, hExec, hHalf⟩ := Option.map_eq_some_iff.mp hRun
  obtain ⟨hLive, hUnused⟩ := of_decide_eq_true hHalf
  refine ⟨s, hLive, ((newSessionOrNull_touchesNoLive_iff s 0).2
    (reachable_of_checked freshIndex_of_releasesFresh hExec)).mpr ?_⟩
  simp [popIndex, hUnused]

/-- Two clients fill a pool of two, and a third takes the session of slot 0. -/
theorem newSessionOrNull_hijacks :
    ∃ s : Server 1 1 2, Reached (fun _ _ => True) s ∧ s.unusedSessionIndexes = [] ∧
      (∀ k, (s.slots k).session.isReleased = false) ∧ (s.slots 0).session.lanSessionId = 2 ∧
      (s.manager.newSessionOrNull 3).map (fun result => (result.1,
        (result.2.sessionPool 0).lanSessionId)) = some (some 0, 3) ∧
      ¬ s.manager.TouchesNoLive 3 := by
  have hRun : (exec step (start 1 1 2) (goes .accept 42)).map (fun s => decide
      (s.unusedSessionIndexes = [] ∧ (∀ k, (s.slots k).session.isReleased = false) ∧
        (s.slots 0).session.lanSessionId = 2 ∧
        (s.manager.newSessionOrNull 3).map (fun result => (result.1,
          (result.2.sessionPool 0).lanSessionId)) = some (some 0, 3))) = some true := by
    decide +kernel
  obtain ⟨s, hExec, hFull⟩ := Option.map_eq_some_iff.mp hRun
  obtain ⟨hUnused, hLive, hOld, hNew⟩ := of_decide_eq_true hFull
  refine ⟨s, reachable_of_exec hExec, hUnused, hLive, hOld, hNew, ?_⟩
  rw [LanSessionManager.touchesNoLive_iff s.manager 0]
  rintro ⟨k, hTop, _⟩
  change s.unusedSessionIndexes.head? = _ at hTop
  rw [hUnused] at hTop
  cases hTop

end Server

end NfNetwork.Lan
