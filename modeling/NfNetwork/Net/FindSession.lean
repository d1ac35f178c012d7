import NfNetwork.Net.ServerView
import NfNetwork.Net.SessionId

/-! Which session an id stands for. The ids that one slot issues repeat after
2^48 - 1 clients; the ids of different slots are different as long as the index
of every slot fits into the 16 bits that an id has for it. -/
namespace NfNetwork.Net

open Machinery

namespace Server

variable {ioThreads callers poolSize : Nat} {s : Server ioThreads callers poolSize}

/-- `FindSessionOrNull`, called in a state. An index outside the pool fails its
assertion. -/
def findSessionOrNull (s : Server ioThreads callers poolSize) (sessionId : Nat) :
    Option (Fin poolSize) :=
  if h : NetSession.sessionIndexOf sessionId < poolSize then
    let session := (s.slots ⟨_, h⟩).session
    if session.netSessionId ≠ sessionId then none
    else if session.isCloseSocket then none
    else if session.isReleased then none
    else some ⟨_, h⟩
  else none

/-- The ids that `Init` gave to the clients of a slot, the first one first. -/
def issuedIds (s : Server ioThreads callers poolSize) (k : Fin poolSize) : List Nat :=
  publishedIds (eventsOf k s.history)

theorem of_findSessionOrNull {sessionId : Nat} {k : Fin poolSize}
    (h : s.findSessionOrNull sessionId = some k) :
    NetSession.sessionIndexOf sessionId = k ∧ (s.slots k).session.netSessionId = sessionId := by
  unfold findSessionOrNull at h
  split at h
  · simp only at h
    split at h
    · cases h
    · rename_i hId
      split at h <;> [skip; split at h] <;> cases h
      exact ⟨rfl, not_not.mp hId⟩
  · cases h

/-- Before a whole round is over no id comes twice, the invalid id never comes,
and an id that a later client followed is nobody's. -/
structure IdsNotReused (s : Server ioThreads callers poolSize) (k : Fin poolSize) : Prop where
  valid : 0 ∉ s.issuedIds k
  previous : ∀ i id id', (s.issuedIds k)[i]? = some id → (s.issuedIds k)[i + 1]? = some id' → id ≠ id'
  distinct : ∀ first count, count < 2 ^ 48 - 1 → (((s.issuedIds k).drop first).take count).Nodup
  stale : ∀ i id, (s.issuedIds k)[i]? = some id → i + 1 < (s.issuedIds k).length →
    (s.issuedIds k).length - i < 2 ^ 48 - 1 →
      (s.slots k).session.netSessionId ≠ id ∧ s.findSessionOrNull id ≠ some k

/-- Two sessions have different ids, and an id finds the session that has it. -/
structure IdentifiesSessions (s : Server ioThreads callers poolSize) : Prop where
  distinct : ∀ j k, (s.slots j).session.isReleased = false → (s.slots k).session.isReleased = false →
    j ≠ k → (s.slots j).session.netSessionId ≠ (s.slots k).session.netSessionId
  found : ∀ k, (s.slots k).session.isReleased = false → (s.slots k).session.isCloseSocket = false →
    s.findSessionOrNull (s.slots k).session.netSessionId = some k

section Runs

variable {Guard : Server ioThreads callers poolSize → Thread ioThreads callers × Choice poolSize →
  Prop}

theorem Reached.named (k : Fin poolSize) (h : Reached Guard s) :
    (s.view k).naming.Named ∧ (s.view k).naming.core.index = k :=
  SlotView.named_of_reachable
    (Reached.view k (fun _ _ _ => True) (fun _ _ _ => trivial) h)

theorem Reached.issuedIds_eq (k : Fin poolSize) (h : Reached Guard s) :
    s.issuedIds k = (List.range (s.issuedIds k).length).map (idAt k) := by
  obtain ⟨hNamed, hIndex⟩ := Reached.named k h
  have hIssued := hNamed.issued
  rw [hIndex] at hIssued
  exact hIssued

theorem Reached.issuedIds_getElem {i id : Nat} (k : Fin poolSize) (h : Reached Guard s)
    (hId : (s.issuedIds k)[i]? = some id) : i < (s.issuedIds k).length ∧ id = idAt k i := by
  obtain ⟨hLt, _⟩ := List.getElem?_eq_some_iff.mp hId
  refine ⟨hLt, ?_⟩
  rw [Reached.issuedIds_eq k h] at hId
  simpa [hLt] using hId.symm

/-- The id of a live session is the last that it issued. -/
theorem Reached.live_id (k : Fin poolSize) (h : Reached Guard s)
    (hLive : (s.slots k).session.isReleased = false) :
    0 < (s.issuedIds k).length ∧
      (s.slots k).session.netSessionId = idAt k ((s.issuedIds k).length - 1) := by
  obtain ⟨hNamed, hIndex⟩ := Reached.named k h
  obtain ⟨hPos, hId, _⟩ := hNamed.live hLive
  rw [hIndex] at hId
  exact ⟨hPos, hId⟩

/-- The id of a session is not one that a later client of it followed. -/
theorem Reached.ne_of_issued {i id : Nat} (k : Fin poolSize) (h : Reached Guard s)
    (hId : (s.issuedIds k)[i]? = some id) (hLater : i + 1 < (s.issuedIds k).length)
    (hRound : (s.issuedIds k).length - i < 2 ^ 48 - 1) :
    (s.slots k).session.netSessionId ≠ id := by
  obtain ⟨hNamed, hIndex⟩ := Reached.named k h
  obtain ⟨_, rfl⟩ := Reached.issuedIds_getElem k h hId
  have hCurrent := hNamed.current
  rw [hIndex] at hCurrent
  change (s.slots k).session.netSessionId = 0 ∨
    0 < (s.issuedIds k).length ∧
      (s.slots k).session.netSessionId = idAt k ((s.issuedIds k).length - 1) ∨
    (s.slots k).session.netSessionId = idAt k (s.issuedIds k).length at hCurrent
  intro hSame
  rcases hCurrent with hZero | ⟨_, hLast⟩ | hNext
  · exact idAt_ne_zero k i (hSame.symm.trans hZero)
  · have hLe := le_of_idAt_eq (hSame.symm.trans hLast) (by omega)
    omega
  · have hLe := le_of_idAt_eq (hSame.symm.trans hNext) (by omega)
    omega

/-- In every run the ids of a slot are not reused. -/
theorem idsNotReused (h : Reached Guard s) (k : Fin poolSize) : s.IdsNotReused k := by
  have hStale : ∀ i id, (s.issuedIds k)[i]? = some id → i + 1 < (s.issuedIds k).length →
      (s.issuedIds k).length - i < 2 ^ 48 - 1 → (s.slots k).session.netSessionId ≠ id :=
    fun i id hId hLater hRound => Reached.ne_of_issued k h hId hLater hRound
  constructor
  · intro hMem
    obtain ⟨i, hId⟩ := List.mem_iff_getElem?.mp hMem
    exact idAt_ne_zero k i (Reached.issuedIds_getElem k h hId).2.symm
  · intro i id id' hId hId'
    obtain ⟨_, rfl⟩ := Reached.issuedIds_getElem k h hId
    obtain ⟨_, rfl⟩ := Reached.issuedIds_getElem k h hId'
    intro hSame
    have hLe := le_of_idAt_eq hSame (Nat.lt_succ_self i)
    omega
  · intro first count hCount
    rw [List.nodup_iff_getElem?_ne_getElem?]
    intro i j hLt hj hSame
    rw [List.getElem?_take_of_lt (by simp at hj; omega), List.getElem?_take_of_lt (by simp at hj; omega),
      List.getElem?_drop, List.getElem?_drop] at hSame
    have hjLt : first + j < (s.issuedIds k).length := by
      simp at hj
      omega
    have hId' := List.getElem?_eq_getElem hjLt
    obtain ⟨_, hIdJ⟩ := Reached.issuedIds_getElem k h hId'
    obtain ⟨_, hIdI⟩ := Reached.issuedIds_getElem k h (hSame.trans hId')
    have hLe := le_of_idAt_eq (hIdI.symm.trans hIdJ) (by omega)
    simp at hj
    omega
  · intro i id hId hLater hRound
    refine ⟨hStale i id hId hLater hRound, ?_⟩
    intro hFound
    exact hStale i id hId hLater hRound (of_findSessionOrNull hFound).2

/-- Ids identify the sessions of a pool whose indices fit into 16 bits. -/
theorem identifiesSessions_of_le (h : Reached Guard s) (hSize : poolSize ≤ 2 ^ 16) :
    s.IdentifiesSessions := by
  have hIndex : ∀ k, (s.slots k).session.isReleased = false →
      NetSession.sessionIndexOf (s.slots k).session.netSessionId = k := by
    intro k hLive
    rw [(Reached.live_id k h hLive).2, sessionIndexOf_idAt, Nat.mod_eq_of_lt (by omega)]
  constructor
  · intro j k hLiveJ hLiveK hNe hSame
    refine hNe (Fin.ext ?_)
    rw [← hIndex j hLiveJ, ← hIndex k hLiveK, hSame]
  · intro k hLive hOpen
    have hk := hIndex k hLive
    simp [findSessionOrNull, hk, hLive, hOpen]

end Runs

/-- Two clients on one slot, one after the other. -/
def secondClientRun : List (Thread 1 2 × Choice 1) :=
  goes .accept 24 ++ (.io 0, .completion 0 .recv (.succeeded 0)) :: goes (.io 0) 18 ++
    goes .accept 15

theorem idsNotReused_second :
    ∃ s : Server 1 2 1, s.IdsNotReused 0 ∧ s.issuedIds 0 = [1, 2] := by
  have hRun : (exec step (start 1 2 1) secondClientRun).map
      (fun s => decide (s.issuedIds 0 = [1, 2])) = some true := by
    decide +kernel
  obtain ⟨s, hExec, hIssued⟩ := Option.map_eq_some_iff.mp hRun
  exact ⟨s, idsNotReused (reachable_of_exec hExec) 0, of_decide_eq_true hIssued⟩

/-- The first client of a pool gets the slot with the highest index. -/
theorem exec_accept (ioThreads callers n : Nat) :
    ∃ s : Server ioThreads callers (n + 1),
      exec step (start ioThreads callers (n + 1)) (goes .accept 13) = some s ∧
        (s.slots (Fin.last n)).session.isReleased = false ∧
        (s.slots (Fin.last n)).session.isCloseSocket = false ∧
        (s.slots (Fin.last n)).session.netSessionId = idAt n 0 := by
  obtain ⟨unusedSession, hUnused⟩ :
      ∃ tail, (List.finRange (n + 1)).reverse = Fin.last n :: tail := by
    rw [List.finRange_succ_last]
    simp
  simp [goes, exec, List.replicate, step, stepIdle, stepFrame, start, setThread, hUnused, apply,
    SlotPc.step, InitPc.step, NetSession.new, update, goto, idAt, uidAt]

/-- In a larger pool the id of the first client stands for another slot. -/
theorem not_identifiesSessions_of_lt (ioThreads callers poolSize : Nat) (hSize : 2 ^ 16 < poolSize) :
    ∃ s : Server ioThreads callers poolSize, Reached (fun _ _ => True) s ∧ ¬ s.IdentifiesSessions := by
  cases poolSize with
  | zero => omega
  | succ n =>
      obtain ⟨s, hExec, hLive, hOpen, hId⟩ := exec_accept ioThreads callers n
      refine ⟨s, reachable_of_exec hExec, ?_⟩
      intro hIdentifies
      have hIndex := (of_findSessionOrNull (hIdentifies.found _ hLive hOpen)).1
      rw [hId, sessionIndexOf_idAt, Fin.val_last] at hIndex
      omega

/-- With any option, accepted by `ValidateOption` or not, ids identify the sessions
in all runs exactly when the pool has no more slots than an id has indices. -/
theorem identifiesSessions_iff (option : ServerComponentOption) (callers : Nat) :
    (∀ s : Server option.networkIOThreadCount callers option.maxSessionCount,
      Reached (fun _ _ => True) s → s.IdentifiesSessions) ↔ option.maxSessionCount ≤ 2 ^ 16 := by
  constructor
  · intro h
    by_contra hSize
    obtain ⟨s, hReached, hNot⟩ := not_identifiesSessions_of_lt
      option.networkIOThreadCount callers _ (Nat.lt_of_not_le hSize)
    exact hNot (h s hReached)
  · intro hSize s hReached
    exact identifiesSessions_of_le hReached hSize

/-- With 65537 sessions the last index does not fit into the id. -/
theorem identifiesSessions_fails :
    ¬ ∀ option : ServerComponentOption, validateOption option = true →
      ∀ s : Server option.networkIOThreadCount 1 option.maxSessionCount,
        Reached (fun _ _ => True) s → s.IdentifiesSessions := by
  intro h
  obtain ⟨s, hReached, hNot⟩ := not_identifiesSessions_of_lt 2 1 65537 (by decide)
  exact hNot (h { maxSessionCount := 65537 } (by decide) s hReached)

end Server

end NfNetwork.Net
