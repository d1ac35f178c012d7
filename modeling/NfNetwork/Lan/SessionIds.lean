import NfNetwork.Lan.AcceptExhausted
import NfNetwork.Lan.Disconnect
import Mathlib.Data.Nat.ModEq

/-! The ids that one slot of the LAN session pool gets, over whole runs. `Release` has overwritten the id
that `GenUniqueSessionID` compares with, so what keeps the ids of a slot apart is the counter alone. -/
namespace NfNetwork.Lan

open Machinery

/-- A call of `NewSessionOrNull` or of `TryReleaseSession`, or what the other code does to a session in
between. -/
inductive PoolCall (poolSize : Nat) where
  | newSessionOrNull
  | tryReleaseSession (k : Fin poolSize)
  | use (k : Fin poolSize) (session : LanSession)

/-- An id, the slot that got it, and how often `mSessionUIDAcc` had been incremented then. -/
structure Issue (poolSize : Nat) where
  slot : Fin poolSize
  sessionId : Nat
  drawn : Nat

/-- A manager, how often `mSessionUIDAcc` has been incremented, and the ids so far. -/
structure IssuingManager (poolSize : Nat) where
  manager : LanSessionManager poolSize
  drawn : Nat
  issued : List (Issue poolSize)

variable {poolSize : Nat}

namespace LanSessionManager

/-- `Init` of a new manager. -/
def init (poolSize : Nat) : LanSessionManager poolSize where
  sessionPool _ := .new
  unusedSessionIndexes := (List.range poolSize).reverse
  sessionUidAcc := 0
  connectedSessionCount := 0

/-- How often the loop of `GenUniqueSessionID` increments `mSessionUIDAcc`. -/
def draws (m : LanSessionManager poolSize) (passes : Nat) : Nat :=
  if h : m.unusedSessionIndexes.headD 0 < poolSize then
    passesOf (uidPass · ⟨_, h⟩) passes { m with unusedSessionIndexes := m.unusedSessionIndexes.tail }
  else 0

end LanSessionManager

namespace IssuingManager

def start (poolSize : Nat) : IssuingManager poolSize := ⟨.init poolSize, 0, []⟩

/-- Three passes are enough for `GenUniqueSessionID`. The id and `mReleaseInfo` are not for the other
code to change. -/
def step (r : IssuingManager poolSize) : PoolCall poolSize → Option (IssuingManager poolSize)
  | .newSessionOrNull => do
      let (session, manager) ← r.manager.newSessionOrNull 3
      let drawn := r.drawn + r.manager.draws 3
      some ⟨manager, drawn, r.issued ++ session.toList.map fun k =>
        ⟨k, (manager.sessionPool k).lanSessionId, drawn⟩⟩
  | .tryReleaseSession k => some { r with manager := (r.manager.tryRemoveSession k).manager }
  | .use k session =>
      if session.lanSessionId = (r.manager.sessionPool k).lanSessionId ∧
          session.isReleased = (r.manager.sessionPool k).isReleased then
        some { r with manager := { r.manager with
          sessionPool := Function.update r.manager.sessionPool k session } }
      else none

/-- The ids of a slot, the latest last. -/
def issuedTo (r : IssuingManager poolSize) (k : Fin poolSize) : List (Issue poolSize) :=
  r.issued.filter fun issue => issue.slot = k

/-- What the id of the client that left does to the one that follows: nothing. -/
structure Apart (r : IssuingManager poolSize) (k : Fin poolSize) (previous current : Nat) : Prop where
  differ : previous ≠ current
  disconnect : r.manager.disconnect previous = some ⟨false, [], r.manager⟩
  send : ∀ slot env packet, slot.session = r.manager.sessionPool k →
    SlotPc.step slot env (.sendCheckId previous packet) = goto slot []

/-- The last two ids of each slot are apart. -/
def NeverRepeats (r : IssuingManager poolSize) : Prop :=
  ∀ k earlier previous current, r.issuedTo k = earlier ++ [previous, current] →
    r.Apart k previous.sessionId current.sessionId

/-- How often `mSessionUIDAcc` will have been incremented when it next is not 0. -/
def nextDrawn (drawn : Nat) : Nat := if 2 ^ 32 ∣ drawn + 1 then drawn + 2 else drawn + 1

/-- The call does not give out a released slot a whole number of laps of the 32-bit counter after the
slot's last id. -/
def OffLap (r : IssuingManager poolSize) : PoolCall poolSize → Prop
  | .newSessionOrNull => ∀ k last, r.manager.unusedSessionIndexes.headD 0 = k.val →
      (r.manager.sessionPool k).isReleased = true → (r.issuedTo k).getLast? = some last →
      ¬ nextDrawn r.drawn ≡ last.drawn [MOD 2 ^ 32]
  | _ => True

end IssuingManager

namespace LanSessionManager

variable {m : LanSessionManager poolSize} {index : Fin poolSize}

/-- The manager after `draws` more numbers. -/
def drawnOn (m : LanSessionManager poolSize) (draws : Nat) : LanSessionManager poolSize :=
  { m with sessionUidAcc := (m.sessionUidAcc + draws) % 2 ^ 32 }

@[simp] theorem drawnOn_sessionPool (m : LanSessionManager poolSize) (draws : Nat) :
    (m.drawnOn draws).sessionPool = m.sessionPool := rfl

/-- Draws add up, modulo the width of the accumulator. -/
theorem drawnOn_sessionUidAcc (m : LanSessionManager poolSize) (draws more : Nat) :
    ((m.drawnOn draws).sessionUidAcc + more) % 2 ^ 32 = (m.sessionUidAcc + (draws + more)) % 2 ^ 32 := by
  rw [drawnOn, Nat.mod_add_mod, Nat.add_assoc]

theorem drawnOn_drawnOn (m : LanSessionManager poolSize) (draws more : Nat) :
    (m.drawnOn draws).drawnOn more = m.drawnOn (draws + more) := by
  rw [drawnOn, drawnOn_sessionUidAcc]
  rfl

/-- The 32 bits of the accumulator fit into the 48 of the uid. -/
theorem uid_eq (n : Nat) : n % 2 ^ 32 % 2 ^ 48 = n % 2 ^ 32 :=
  Nat.mod_eq_of_lt (Nat.lt_trans (Nat.mod_lt n (by decide)) (by decide))

/-- A pass of the loop ends where the next uid is neither 0 nor the one that the slot shows. -/
theorem accepts_iff_next : m.Accepts index ↔ (m.sessionUidAcc + 1) % 2 ^ 32 ≠ 0 ∧
    (m.sessionUidAcc + 1) % 2 ^ 32 ≠ LanSession.sessionUid (m.sessionPool index).lanSessionId := by
  rw [Accepts, counted, uid_eq]

/-- What `GenUniqueSessionID` leaves when `draws` is the first number that it accepts. -/
structure Draws (m : LanSessionManager poolSize) (index : Fin poolSize) (draws passes : Nat) : Prop where
  result : loop (uidPass · index) passes m = some ((m.sessionUidAcc + draws) % 2 ^ 32, m.drawnOn draws)
  passes : passesOf (uidPass · index) passes m = draws
  valid : (m.sessionUidAcc + draws) % 2 ^ 32 ≠ 0
  other : (m.sessionUidAcc + draws) % 2 ^ 32 ≠ LanSession.sessionUid (m.sessionPool index).lanSessionId

/-- The first draw may be taken. -/
theorem Draws.of_accepts (h : m.Accepts index) (passes : Nat) : m.Draws index 1 (passes + 1) where
  result := by
    have hUid : m.counted.sessionUidAcc % 2 ^ 48 = (m.sessionUidAcc + 1) % 2 ^ 32 := uid_eq _
    rw [loop_of_leave (uidPass_of_accepts h), hUid]
    rfl
  passes := passesOf_of_leave (uidPass_of_accepts h) _
  valid := (accepts_iff_next.mp h).1
  other := (accepts_iff_next.mp h).2

/-- Or it is refused, and the loop draws once more from there. -/
theorem Draws.of_again {draws passes : Nat} (hRefuses : ¬m.Accepts index)
    (h : (m.drawnOn 1).Draws index draws passes) : m.Draws index (1 + draws) (passes + 1) where
  result := by
    rw [loop_of_again (uidPass_of_not_accepts hRefuses)]
    refine h.result.trans ?_
    rw [drawnOn_sessionUidAcc, drawnOn_drawnOn]
  passes := by
    rw [passesOf_of_again (uidPass_of_not_accepts hRefuses), Nat.add_comm]
    exact congrArg (1 + ·) h.passes
  valid := by
    rw [← drawnOn_sessionUidAcc]
    exact h.valid
  other := by
    rw [← drawnOn_sessionUidAcc]
    exact h.other

/-- Three passes are enough. -/
theorem exists_draws (m : LanSessionManager poolSize) (index : Fin poolSize) :
    ∃ draws, m.Draws index draws 3 := by
  by_cases hFirst : m.Accepts index
  · exact ⟨1, .of_accepts hFirst 2⟩
  by_cases hSecond : (m.drawnOn 1).Accepts index
  · exact ⟨2, .of_again hFirst (.of_accepts hSecond 1)⟩
  · exact ⟨3, .of_again hFirst (.of_again hSecond (.of_accepts (accepts_of_three hFirst hSecond) 0))⟩

/-- With the id overwritten only 0 is refused. -/
theorem draws_of_released (hReleased : (m.sessionPool index).lanSessionId = 0) :
    m.Draws index (if 2 ^ 32 ∣ m.sessionUidAcc + 1 then 2 else 1) 3 := by
  have hUid : LanSession.sessionUid (m.sessionPool index).lanSessionId = 0 := by rw [hReleased]; rfl
  by_cases hWraps : 2 ^ 32 ∣ m.sessionUidAcc + 1
  · rw [if_pos hWraps]
    have hFirst : ¬m.Accepts index := by
      rw [accepts_iff_next]
      exact fun h => h.1 (Nat.mod_eq_zero_of_dvd hWraps)
    refine .of_again hFirst (.of_accepts ?_ 1)
    rw [accepts_iff_next, drawnOn_sessionPool, hUid, drawnOn_sessionUidAcc]
    omega
  · rw [if_neg hWraps]
    refine .of_accepts ?_ 2
    rw [accepts_iff_next, hUid]
    omega

/-- `NewSessionOrNull` on a pool whose indexes fit into an id. -/
theorem newSessionOrNull_of_draws {draws : Nat} (h : m.unusedSessionIndexes.headD 0 = index.val)
    (hPool : poolSize ≤ 2 ^ 16)
    (hDraws : ({ m with unusedSessionIndexes := m.unusedSessionIndexes.tail } :
      LanSessionManager poolSize).Draws index draws 3) :
    m.newSessionOrNull 3 = some (some index, m.withInitialised index
        (LanSession.genSessionId index.val ((m.sessionUidAcc + draws) % 2 ^ 32))
        ((m.sessionUidAcc + draws) % 2 ^ 32) m.unusedSessionIndexes.tail) ∧
      m.draws 3 = draws := by
  obtain ⟨i, hi⟩ := index
  subst h
  have hIndex : LanSession.sessionIndex (LanSession.genSessionId (m.unusedSessionIndexes.headD 0)
      ((m.sessionUidAcc + draws) % 2 ^ 32)) = m.unusedSessionIndexes.headD 0 := by
    rw [sessionIndex_genSessionId_eq_mod]
    exact Nat.mod_eq_of_lt (Nat.lt_of_lt_of_le hi hPool)
  constructor
  · have hNew := newSessionOrNull_of_loop hi hDraws.result (sessionIndex_lt_poolSize hi _)
    rw [hNew]
    simp only [hIndex]
  · rw [LanSessionManager.draws, dif_pos hi]
    exact hDraws.passes

/-- What is left of a session that `TryReleaseSession` releases. -/
theorem tryRemoveSession_cases (m : LanSessionManager poolSize) (k : Fin poolSize) :
    (m.tryRemoveSession k).manager.sessionUidAcc = m.sessionUidAcc ∧
      ((m.tryRemoveSession k).manager.sessionPool = m.sessionPool ∨
        ∃ session : LanSession, session.isReleased = true ∧ session.lanSessionId = 0 ∧
          (m.tryRemoveSession k).manager.sessionPool = Function.update m.sessionPool k session) := by
  by_cases hReleasable : (m.sessionPool k).releasable = true
  · simp only [tryRemoveSession, LanSession.tryRelease, hReleasable, if_true]
    exact ⟨trivial, .inr ⟨_, LanSession.release_isReleased _, rfl, rfl⟩⟩
  · simp only [tryRemoveSession, LanSession.tryRelease, hReleasable]
    exact ⟨rfl, .inl rfl⟩

end LanSessionManager

/-- The uid of a packed id, above 16 bits of index. -/
theorem sessionUid_genSessionId (index uid : Nat) :
    LanSession.sessionUid (LanSession.genSessionId index uid) = uid % 2 ^ 48 := by
  simp only [LanSession.sessionUid, LanSession.genSessionId]
  omega

/-- Two ids of one slot are the same exactly if their uids are, modulo 2^32. -/
theorem genSessionId_eq_iff (index uid uid' : Nat) :
    LanSession.genSessionId index (uid % 2 ^ 32) = LanSession.genSessionId index (uid' % 2 ^ 32) ↔
      uid ≡ uid' [MOD 2 ^ 32] := by
  simp only [LanSession.genSessionId, LanSessionManager.uid_eq, Nat.ModEq, Nat.add_left_cancel_iff]

namespace IssuingManager

variable {r r' : IssuingManager poolSize} {k : Fin poolSize}

/-- The log against the manager. -/
structure Logged (r : IssuingManager poolSize) : Prop where
  counter : r.manager.sessionUidAcc = r.drawn % 2 ^ 32
  ids : ∀ issue ∈ r.issued, issue.drawn % 2 ^ 32 ≠ 0 ∧
    issue.sessionId = LanSession.genSessionId issue.slot (issue.drawn % 2 ^ 32)
  live : ∀ k, (r.manager.sessionPool k).isReleased = false →
    ∃ last, (r.issuedTo k).getLast? = some last ∧ (r.manager.sessionPool k).lanSessionId = last.sessionId
  released : ∀ k, (r.manager.sessionPool k).isReleased = true →
    (r.manager.sessionPool k).lanSessionId = 0

/-- Nothing has been issued to begin with. -/
theorem start_logged : (start poolSize).Logged where
  counter := rfl
  ids _ hIssue := by cases hIssue
  live _ hLive := by cases hLive
  released _ _ := rfl

/-- What a slot was issued is packed from a draw that was not 0. -/
theorem Logged.of_issuedTo (h : r.Logged) {issue : Issue poolSize} (hIssue : issue ∈ r.issuedTo k) :
    issue.drawn % 2 ^ 32 ≠ 0 ∧
      issue.sessionId = LanSession.genSessionId k.val (issue.drawn % 2 ^ 32) := by
  obtain ⟨hMem, hSlot⟩ := List.mem_filter.mp hIssue
  obtain rfl := of_decide_eq_true hSlot
  exact h.ids issue hMem

/-- The sessions have changed, the log has not. -/
theorem Logged.of_sessions (h : r.Logged) {manager : LanSessionManager poolSize}
    (hCounter : manager.sessionUidAcc = r.manager.sessionUidAcc)
    (hSessions : ∀ k, ((manager.sessionPool k).isReleased = (r.manager.sessionPool k).isReleased ∧
        (manager.sessionPool k).lanSessionId = (r.manager.sessionPool k).lanSessionId) ∨
      ((manager.sessionPool k).isReleased = true ∧ (manager.sessionPool k).lanSessionId = 0)) :
    ({ r with manager } : IssuingManager poolSize).Logged where
  counter := hCounter.trans h.counter
  ids := h.ids
  live k hLive := by
    rcases hSessions k with ⟨hSame, hId⟩ | ⟨hReleased, _⟩
    · obtain ⟨last, hLast, hOld⟩ := h.live k (hSame.symm.trans hLive)
      exact ⟨last, hLast, hId.trans hOld⟩
    · rw [hLive] at hReleased
      cases hReleased
  released k hReleased := by
    rcases hSessions k with ⟨hSame, hId⟩ | ⟨_, hId⟩
    · exact hId.trans (h.released k (hSame.symm.trans hReleased))
    · exact hId

/-- A new id, by the counter. -/
def issue (r : IssuingManager poolSize) (k : Fin poolSize) (draws : Nat) : Issue poolSize where
  slot := k
  sessionId := LanSession.genSessionId k.val ((r.drawn + draws) % 2 ^ 32)
  drawn := r.drawn + draws

/-- The manager and the log after `NewSessionOrNull` has given out slot `k`. -/
def afterNew (r : IssuingManager poolSize) (k : Fin poolSize) (draws : Nat) : IssuingManager poolSize where
  manager := r.manager.withInitialised k (r.issue k draws).sessionId ((r.drawn + draws) % 2 ^ 32)
    r.manager.unusedSessionIndexes.tail
  drawn := r.drawn + draws
  issued := r.issued ++ [r.issue k draws]

/-- The manager whose top index is taken. -/
def popped (r : IssuingManager poolSize) : LanSessionManager poolSize :=
  { r.manager with unusedSessionIndexes := r.manager.unusedSessionIndexes.tail }

/-- `NewSessionOrNull` comes through with some number of draws, three at most. -/
theorem Logged.step_of_draws (h : r.Logged) (hPool : poolSize ≤ 2 ^ 16) {draws : Nat}
    (hIndex : r.manager.unusedSessionIndexes.headD 0 = k.val) (hDraws : r.popped.Draws k draws 3) :
    r.step .newSessionOrNull = some (r.afterNew k draws) := by
  obtain ⟨hNew, hCount⟩ := LanSessionManager.newSessionOrNull_of_draws hIndex hPool hDraws
  have hNumber : (r.manager.sessionUidAcc + draws) % 2 ^ 32 = (r.drawn + draws) % 2 ^ 32 := by
    rw [h.counter, Nat.mod_add_mod]
  rw [hNumber] at hNew
  rw [step, hNew, hCount]
  simp [issue, afterNew, LanSessionManager.withInitialised, LanSession.init]

/-- What `NewSessionOrNull` does to the log. -/
theorem Logged.step_new (h : r.Logged) (hPool : poolSize ≤ 2 ^ 16)
    (hStep : r.step .newSessionOrNull = some r') :
    ∃ k draws, r.manager.unusedSessionIndexes.headD 0 = k.val ∧ r.popped.Draws k draws 3 ∧
      r' = r.afterNew k draws := by
  by_cases hInPool : r.manager.unusedSessionIndexes.headD 0 < poolSize
  · obtain ⟨draws, hDraws⟩ := r.popped.exists_draws ⟨_, hInPool⟩
    refine ⟨⟨_, hInPool⟩, draws, rfl, hDraws, ?_⟩
    rw [h.step_of_draws hPool rfl hDraws] at hStep
    cases hStep
    rfl
  · rw [step, LanSessionManager.newSessionOrNull_eq_none hInPool] at hStep
    cases hStep

/-- The slot that is opened gets one more id. -/
theorem issuedTo_afterNew (draws : Nat) :
    (r.afterNew k draws).issuedTo k = r.issuedTo k ++ [r.issue k draws] := by
  simp [issuedTo, afterNew, List.filter_append, issue]

/-- The other slots get none. -/
theorem issuedTo_afterNew_other {k' : Fin poolSize} (draws : Nat) (hOther : k' ≠ k) :
    (r.afterNew k draws).issuedTo k' = r.issuedTo k' := by
  simp [issuedTo, afterNew, List.filter_append, issue, Ne.symm hOther]

/-- Every call keeps the log of what was issued, how often it draws included. -/
theorem Logged.step (h : r.Logged) (hPool : poolSize ≤ 2 ^ 16) {call : PoolCall poolSize}
    (hStep : r.step call = some r') : r'.Logged := by
  cases call with
  | newSessionOrNull =>
      obtain ⟨index, draws, _, hDraws, rfl⟩ := h.step_new hPool hStep
      refine ⟨rfl, ?_, ?_, ?_⟩
      · intro issue hIssue
        rcases List.mem_append.mp hIssue with hOld | hNew
        · exact h.ids issue hOld
        · obtain rfl := List.mem_singleton.mp hNew
          refine ⟨?_, rfl⟩
          rw [IssuingManager.issue, ← Nat.mod_add_mod, ← h.counter]
          exact hDraws.valid
      · intro k hLive
        by_cases hSame : k = index
        · subst hSame
          refine ⟨r.issue k draws, ?_, ?_⟩
          · rw [issuedTo_afterNew, List.getLast?_concat]
          · simp [afterNew, LanSessionManager.withInitialised, LanSession.init]
        · rw [issuedTo_afterNew_other _ hSame]
          simp only [afterNew, LanSessionManager.withInitialised, Function.update_of_ne hSame] at hLive ⊢
          exact h.live k hLive
      · intro k hReleased
        by_cases hSame : k = index
        · subst hSame
          simp [afterNew, LanSessionManager.withInitialised, LanSession.init] at hReleased
        · simp only [afterNew, LanSessionManager.withInitialised, Function.update_of_ne hSame] at hReleased ⊢
          exact h.released k hReleased
  | tryReleaseSession k =>
      cases hStep
      obtain ⟨hCounter, hSame | ⟨session, hReleased, hId, hSessions⟩⟩ :=
        r.manager.tryRemoveSession_cases k
      · refine h.of_sessions hCounter fun k' => .inl ?_
        rw [hSame]
        exact ⟨rfl, rfl⟩
      · refine h.of_sessions hCounter ?_
        intro k'
        rw [hSessions]
        by_cases hAt : k' = k
        · right
          subst hAt
          rw [Function.update_self]
          exact ⟨hReleased, hId⟩
        · left
          rw [Function.update_of_ne hAt]
          exact ⟨rfl, rfl⟩
  | use k session =>
      obtain ⟨⟨hId, hReleased⟩, hNext⟩ := Option.ite_none_right_eq_some.mp hStep
      cases hNext
      refine h.of_sessions rfl fun k' => .inl ?_
      by_cases hSame : k' = k
      · subst hSame
        simp [hId, hReleased]
      · simp [hSame]

/-- The last two ids of each slot differ. -/
def IdsDiffer (r : IssuingManager poolSize) : Prop :=
  ∀ k earlier previous current, r.issuedTo k = earlier ++ [previous, current] →
    previous.sessionId ≠ current.sessionId

/-- The id of the client that left is not the one in the session. -/
theorem Logged.lanSessionId_ne (h : r.Logged) {earlier : List (Issue poolSize)}
    {previous current : Issue poolSize} (hIssued : r.issuedTo k = earlier ++ [previous, current])
    (hDiffer : previous.sessionId ≠ current.sessionId) :
    (r.manager.sessionPool k).lanSessionId ≠ previous.sessionId := by
  cases hReleased : (r.manager.sessionPool k).isReleased with
  | true =>
      have hMem : previous ∈ r.issuedTo k := by simp [hIssued]
      have hPrevious := h.of_issuedTo hMem
      rw [h.released k hReleased, hPrevious.2, LanSession.genSessionId, LanSessionManager.uid_eq]
      have hUid := hPrevious.1
      omega
  | false =>
      obtain ⟨last, hLast, hId⟩ := h.live k hReleased
      rw [hIssued, List.getLast?_append_of_ne_nil _ (List.cons_ne_nil _ _)] at hLast
      cases hLast
      rw [hId]
      exact hDiffer.symm

/-- Ids are told apart by their draws, so a repeat is a repeat of a draw modulo 2^32. -/
theorem Logged.neverRepeats_iff_differ (h : r.Logged) (hPool : poolSize ≤ 2 ^ 16) :
    r.NeverRepeats ↔ r.IdsDiffer := by
  constructor
  · intro hNever k earlier previous current hIssued
    exact (hNever k earlier previous current hIssued).differ
  · intro hDiffer k earlier previous current hIssued
    have hApart := hDiffer k earlier previous current hIssued
    have hOther := h.lanSessionId_ne hIssued hApart
    have hMem : previous ∈ r.issuedTo k := by simp [hIssued]
    have hPrevious := h.of_issuedTo hMem
    have hIndex : LanSession.sessionIndex previous.sessionId = k.val := by
      rw [hPrevious.2]
      exact sessionIndex_genSessionId _ (Nat.lt_of_lt_of_le k.isLt hPool)
    refine ⟨hApart, ?_, ?_⟩
    · have hInPool : LanSession.sessionIndex previous.sessionId < poolSize := by
        rw [hIndex]
        exact k.isLt
      have hSlot : (⟨_, hInPool⟩ : Fin poolSize) = k := Fin.ext hIndex
      rw [LanSessionManager.disconnect, dif_pos hInPool, if_pos]
      rw [hSlot]
      exact hOther
    · intro slot env packet hSession
      rw [SlotPc.step, if_pos]
      rw [hSession]
      exact hOther

/-- A new id comes next to the last one of its slot. -/
theorem idsDiffer_afterNew {draws : Nat} (hDiffer : r.IdsDiffer) :
    (r.afterNew k draws).IdsDiffer ↔ ∀ last, (r.issuedTo k).getLast? = some last →
      last.sessionId ≠ (r.issue k draws).sessionId := by
  constructor
  · intro hNew last hLast
    obtain ⟨earlier, hIssued⟩ := List.getLast?_eq_some_iff.mp hLast
    refine hNew k earlier last (r.issue k draws) ?_
    rw [issuedTo_afterNew, hIssued, List.append_assoc]
    rfl
  · intro hLast k' earlier previous current hIssued
    by_cases hSame : k' = k
    · subst hSame
      have hSplit : r.issuedTo k' ++ [r.issue k' draws] = (earlier ++ [previous]) ++ [current] := by
        rw [← issuedTo_afterNew, hIssued, List.append_assoc]
        rfl
      obtain ⟨hOld, hCurrent⟩ := List.append_inj' hSplit rfl
      cases hCurrent
      refine hLast previous ?_
      rw [hOld, List.getLast?_concat]
    · rw [issuedTo_afterNew_other _ hSame] at hIssued
      exact hDiffer k' earlier previous current hIssued

/-- The number of increments that `NewSessionOrNull` makes for a released slot. -/
theorem Logged.draws_eq (h : r.Logged) {draws : Nat}
    (hDraws : r.popped.Draws k draws 3) (hReleased : (r.manager.sessionPool k).isReleased = true) :
    r.drawn + draws = nextDrawn r.drawn := by
  have hNext := LanSessionManager.draws_of_released (m := r.popped) (h.released k hReleased)
  have hSame : draws = if 2 ^ 32 ∣ r.manager.sessionUidAcc + 1 then 2 else 1 :=
    hDraws.passes.symm.trans hNext.passes
  rw [h.counter] at hSame
  rw [hSame, nextDrawn]
  split <;> split <;> omega

/-- A step keeps the last two ids of each slot apart exactly if it is off the lap. -/
theorem Logged.idsDiffer_iff (h : r.Logged) (hPool : poolSize ≤ 2 ^ 16) (hDiffer : r.IdsDiffer)
    {call : PoolCall poolSize} (hStep : r.step call = some r') : r'.IdsDiffer ↔ r.OffLap call := by
  cases call with
  | tryReleaseSession k =>
      cases hStep
      exact iff_of_true hDiffer trivial
  | use k session =>
      obtain ⟨_, hNext⟩ := Option.ite_none_right_eq_some.mp hStep
      cases hNext
      exact iff_of_true hDiffer trivial
  | newSessionOrNull =>
      obtain ⟨k, draws, hIndex, hDraws, rfl⟩ := h.step_new hPool hStep
      rw [idsDiffer_afterNew hDiffer]
      have hSame : ∀ last, (r.issuedTo k).getLast? = some last →
          (last.sessionId ≠ (r.issue k draws).sessionId ↔ ¬ r.drawn + draws ≡ last.drawn [MOD 2 ^ 32]) := by
        intro last hLast
        rw [(h.of_issuedTo (List.mem_of_getLast? hLast)).2, IssuingManager.issue, ne_comm, Ne,
          genSessionId_eq_iff]
      cases hReleased : (r.manager.sessionPool k).isReleased with
      | true =>
          rw [h.draws_eq hDraws hReleased] at hSame
          constructor
          · intro hLast k' last hIndex' _ hMem
            obtain rfl : k' = k := Fin.ext (hIndex'.symm.trans hIndex)
            exact (hSame last hMem).mp (hLast last hMem)
          · intro hOff last hMem
            exact (hSame last hMem).mpr (hOff k last hIndex hReleased hMem)
      | false =>
          refine iff_of_true ?_ ?_
          · intro last hLast
            obtain ⟨last', hLast', hId⟩ := h.live k hReleased
            obtain rfl := Option.some.inj (hLast'.symm.trans hLast)
            have hOther : (r.manager.sessionUidAcc + draws) % 2 ^ 32 ≠
                LanSession.sessionUid (r.manager.sessionPool k).lanSessionId := hDraws.other
            intro hEq
            rw [hId, hEq, IssuingManager.issue, sessionUid_genSessionId, LanSessionManager.uid_eq, h.counter,
              Nat.mod_add_mod] at hOther
            exact hOther rfl
          · intro k' last hIndex' hReleased'
            obtain rfl : k' = k := Fin.ext (hIndex'.symm.trans hIndex)
            rw [hReleased] at hReleased'
            cases hReleased'

section Laps

/-- A released slot on top of the stack is given out on the next number. -/
theorem Logged.step_released (h : r.Logged) (hPool : poolSize ≤ 2 ^ 16)
    (hIndex : r.manager.unusedSessionIndexes.headD 0 = k.val)
    (hReleased : (r.manager.sessionPool k).isReleased = true) :
    ∃ draws, r.step .newSessionOrNull = some (r.afterNew k draws) ∧
      r.drawn + draws = nextDrawn r.drawn := by
  have hDraws := LanSessionManager.draws_of_released (m := r.popped) (h.released k hReleased)
  exact ⟨_, h.step_of_draws hPool hIndex hDraws, h.draws_eq hDraws hReleased⟩

/-- The manager and the log after slot `k` was released. -/
def afterRelease (r : IssuingManager poolSize) (k : Fin poolSize) : IssuingManager poolSize :=
  { r with manager := { r.manager with
    sessionPool := Function.update r.manager.sessionPool k
      { r.manager.sessionPool k with isReleased := true }.release
    unusedSessionIndexes := k :: r.manager.unusedSessionIndexes
    connectedSessionCount := r.manager.connectedSessionCount - 1 } }

/-- A live session without references can be released. -/
theorem step_of_live {id : Nat} (h : r.manager.Live k id)
    (hIdle : (r.manager.sessionPool k).ioCount = 0) :
    r.step (.tryReleaseSession k) = some (r.afterRelease k) := by
  rw [step, h.tryRemoveSession_of_idle hIdle]
  rfl

/-- The session that was opened is live under the id that was issued. -/
theorem live_afterNew (hPool : poolSize ≤ 2 ^ 16) (draws : Nat) :
    (r.afterNew k draws).manager.Live k (r.issue k draws).sessionId ∧
      ((r.afterNew k draws).manager.sessionPool k).ioCount = 0 := by
  refine ⟨⟨sessionIndex_genSessionId _ (Nat.lt_of_lt_of_le k.isLt hPool), ?_, ?_⟩, ?_⟩
  all_goals simp [afterNew, LanSessionManager.withInitialised, LanSession.init]

/-- Opening a session leaves the other slots alone. -/
theorem sessionPool_afterNew_other {k' : Fin poolSize} (draws : Nat) (hOther : k' ≠ k) :
    (r.afterNew k draws).manager.sessionPool k' = r.manager.sessionPool k' :=
  Function.update_of_ne hOther ..

/-- So does releasing one. -/
theorem sessionPool_afterRelease_other {k' : Fin poolSize} (hOther : k' ≠ k) :
    (r.afterRelease k).manager.sessionPool k' = r.manager.sessionPool k' :=
  Function.update_of_ne hOther ..

/-- A release leaves its slot released. -/
theorem isReleased_afterRelease : ((r.afterRelease k).manager.sessionPool k).isReleased = true :=
  (congrArg LanSession.isReleased (Function.update_self ..)).trans
    (LanSessionManager.LanSession.release_isReleased _)

/-- The first client keeps slot 1, the others come and go in slot 0. -/
structure FirstStays (r : IssuingManager 2) (drawn : Nat) : Prop where
  logged : r.Logged
  drawn : r.drawn = drawn
  unused : r.manager.unusedSessionIndexes = [0]
  free : (r.manager.sessionPool 0).isReleased = true
  stays : r.manager.Live 1 (LanSession.genSessionId 1 1)
  idle : (r.manager.sessionPool 1).ioCount = 0
  issued : r.issuedTo 1 = [⟨1, LanSession.genSessionId 1 1, 1⟩]

/-- Another client comes and leaves. -/
theorem FirstStays.next {r : IssuingManager 2} {drawn : Nat} (h : FirstStays r drawn)
    (hBelow : drawn + 1 < 2 ^ 32) :
    ∃ r', exec step r [.newSessionOrNull, .tryReleaseSession 0] = some r' ∧ FirstStays r' (drawn + 1) := by
  obtain ⟨draws, hNew, hDrawn⟩ := h.logged.step_released (k := 0) (by decide) (by rw [h.unused]; rfl) h.free
  obtain ⟨hLive, hIdle⟩ := live_afterNew (r := r) (k := 0) (by decide) draws
  have hRelease := step_of_live hLive hIdle
  have hLogged := h.logged.step (by decide) hNew
  have hKept : ((r.afterNew 0 draws).afterRelease 0).manager.sessionPool 1 = r.manager.sessionPool 1 := by
    rw [sessionPool_afterRelease_other (by decide), sessionPool_afterNew_other _ (by decide)]
  refine ⟨_, ?_, hLogged.step (by decide) hRelease, ?_, ?_, isReleased_afterRelease, ?_, ?_, ?_⟩
  · rw [exec, hNew]
    dsimp only
    rw [exec, hRelease]
    rfl
  · refine hDrawn.trans ?_
    rw [h.drawn, nextDrawn, if_neg]
    omega
  · show 0 :: r.manager.unusedSessionIndexes.tail = [0]
    rw [h.unused]
    rfl
  · refine ⟨h.stays.index, ?_, ?_⟩
    · rw [hKept]
      exact h.stays.id
    · rw [hKept]
      exact h.stays.isReleased
  · rw [hKept]
    exact h.idle
  · exact (issuedTo_afterNew_other draws (by decide)).trans h.issued

/-- Slot 0 keeps its first session while slot 1 is opened and released as often as one likes, below
the wrap. -/
theorem firstStays_reached (others : Nat) (hBelow : others + 1 < 2 ^ 32) :
    ∃ calls r, exec step (start 2) calls = some r ∧ FirstStays r (others + 1) := by
  induction others with
  | zero =>
      obtain ⟨draws, hNew, hDrawn⟩ :=
        (start_logged : (start 2).Logged).step_released (k := 1) (by decide) rfl rfl
      have hOne : draws = 1 := by
        have hNext : nextDrawn 0 = 1 := by decide
        exact (Nat.zero_add draws).symm.trans (hDrawn.trans hNext)
      subst hOne
      obtain ⟨hLive, hIdle⟩ := live_afterNew (r := start 2) (k := 1) (by decide) 1
      refine ⟨[.newSessionOrNull], _, ?_, start_logged.step (by decide) hNew, rfl, rfl, rfl, hLive, hIdle, ?_⟩
      · rw [exec, hNew]
        rfl
      · exact (issuedTo_afterNew 1).trans rfl
  | succ others ih =>
      obtain ⟨calls, r, hRun, h⟩ := ih (by omega)
      obtain ⟨r', hNext, h'⟩ := h.next hBelow
      refine ⟨calls ++ [.newSessionOrNull, .tryReleaseSession 0], r', ?_, h'⟩
      rw [exec_append hRun, hNext]

/-- The first client leaves when the counter has gone round, and the next one gets its id. -/
theorem repeats_reached : ∃ calls r, exec step (start 2) calls = some r ∧ ¬r.NeverRepeats := by
  obtain ⟨calls, r, hRun, h⟩ := firstStays_reached (2 ^ 32 - 2) (by decide)
  have hRelease := step_of_live h.stays h.idle
  obtain ⟨draws, hNew, hDrawn⟩ := (h.logged.step (by decide) hRelease).step_released (k := 1) (by decide)
    rfl isReleased_afterRelease
  refine ⟨calls ++ [.tryReleaseSession 1, .newSessionOrNull], (r.afterRelease 1).afterNew 1 draws, ?_, ?_⟩
  · rw [exec_append hRun, exec, hRelease]
    dsimp only
    rw [exec, hNew]
    rfl
  · intro hNever
    have hIssued : ((r.afterRelease 1).afterNew 1 draws).issuedTo 1 =
        [] ++ [⟨1, LanSession.genSessionId 1 1, 1⟩, (r.afterRelease 1).issue 1 draws] := by
      rw [issuedTo_afterNew, show (r.afterRelease 1).issuedTo 1 = r.issuedTo 1 from rfl, h.issued]
      rfl
    have hLast : (r.afterRelease 1).drawn + draws = 2 ^ 32 + 1 := by
      rw [hDrawn, show (r.afterRelease 1).drawn = r.drawn from rfl, h.drawn]
      decide
    refine (hNever 1 [] _ _ hIssued).differ ?_
    rw [IssuingManager.issue, hLast]
    rfl

end Laps

/-- No slot gets its last id again, and nothing done with the id of the client that left reaches the next
one, in exactly the runs that are off the lap at every step. -/
theorem neverRepeats_iff (hPool : poolSize < 2 ^ 16) (calls : List (PoolCall poolSize))
    (r : IssuingManager poolSize) (hRun : exec step (start poolSize) calls = some r) :
    EachState step NeverRepeats (start poolSize) calls ↔ EachStep step OffLap (start poolSize) calls := by
  refine eachState_iff_eachStep Logged (fun hLogged hStep => hLogged.step hPool.le hStep) ?_
    start_logged ?_ hRun
  · intro r r' call hLogged hNever hStep
    rw [(hLogged.step hPool.le hStep).neverRepeats_iff_differ hPool.le]
    exact hLogged.idsDiffer_iff hPool.le ((hLogged.neverRepeats_iff_differ hPool.le).mp hNever) hStep
  · intro k earlier previous current hIssued
    simp [issuedTo, start] at hIssued

/-- The counter goes round while one client stays. -/
theorem neverRepeats_iff_wrapped : ∃ calls, ¬EachStep step OffLap (start 2) calls := by
  obtain ⟨calls, r, hRun, hRepeats⟩ := repeats_reached
  refine ⟨calls, ?_⟩
  intro hOff
  exact hRepeats ((neverRepeats_iff (by decide) calls r hRun).mpr hOff calls [] r
    (List.append_nil calls).symm hRun)

/-- The next client gets the id of the one that has just left. -/
theorem not_neverRepeats : ¬ ∀ poolSize < 2 ^ 16, ∀ (calls : List (PoolCall poolSize))
    (r : IssuingManager poolSize), exec step (start poolSize) calls = some r → r.NeverRepeats := by
  intro hAll
  obtain ⟨calls, r, hRun, hRepeats⟩ := repeats_reached
  exact hRepeats (hAll 2 (by decide) calls r hRun)

end IssuingManager

end NfNetwork.Lan
