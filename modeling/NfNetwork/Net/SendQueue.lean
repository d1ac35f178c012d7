import NfNetwork.Net.SendView
import NfNetwork.Net.ServerView

/-! No packet is left behind in a send queue, in every run in which nobody finds
the sending flag taken by a thread that has seen the queue empty and is about to
clear the flag. -/
namespace NfNetwork.Net

open Machinery

/-- About to try the sending flag. -/
def SlotPc.triesFlag : SlotPc → Bool
  | .sendPost _ .readySending | .sentReadId | .sent _ => true
  | _ => false

/-- About to clear the flag after an empty queue. -/
def SlotPc.clearsFlag : SlotPc → Bool
  | .sendPost _ .clearFlag => true
  | _ => false

/-- Inside `SendPost`, or between the completion of a send and its `SendPost`. -/
def SlotPc.sends : SlotPc → Bool
  | .sendPost _ _ | .finishSending .ioThread _ | .completed .send _ | .checkClosed .send
  | .sentReadId | .sent _ => true
  | _ => false

theorem SlotPc.sendActs_trying (pc : SlotPc) :
    (pc.sendActs.map SendAct.trying).sum = if pc.triesFlag then 1 else 0 := by
  cases pc
  case sendPost caller pc => cases pc <;> rfl
  case finishSending caller pc => cases caller <;> cases pc <;> rfl
  case release id pc => cases pc <;> rfl
  case completed kind outcome => cases kind <;> rfl
  case checkClosed kind => cases kind <;> rfl
  case init pc => cases pc <;> rfl
  all_goals rfl

theorem SlotPc.sendActs_clearing (pc : SlotPc) :
    (pc.sendActs.map SendAct.clearing).sum = if pc.clearsFlag then 1 else 0 := by
  cases pc
  case sendPost caller pc => cases pc <;> rfl
  case finishSending caller pc => cases caller <;> cases pc <;> rfl
  case release id pc => cases pc <;> rfl
  case completed kind outcome => cases kind <;> rfl
  case checkClosed kind => cases kind <;> rfl
  case init pc => cases pc <;> rfl
  all_goals rfl

theorem SlotPc.sends_of_wakes {pc : SlotPc} (h : (pc.sendActs.map SendAct.wakes).sum ≠ 0) :
    pc.sends = true := by
  cases pc
  case sendPost | sentReadId | sent => rfl
  case finishSending caller pc =>
    cases caller
    · cases pc <;> exact absurd rfl h
    · rfl
  case completed kind outcome => cases kind <;> first | rfl | exact absurd rfl h
  case checkClosed kind => cases kind <;> first | rfl | exact absurd rfl h
  case release id pc => cases pc <;> exact absurd rfl h
  case init pc => cases pc <;> exact absurd rfl h
  all_goals exact absurd rfl h

theorem SlotPc.sendLabel_misses {slot : Slot} {env : Env} {pc : SlotPc}
    (h : pc.sendLabel slot env = .misses) :
    slot.session.isSending ≠ 0 ∧ ∃ caller, pc = .sendPost caller .readySending := by
  unfold SlotPc.sendLabel at h
  split at h
  case h_1 caller =>
    split at h
    · cases h
    · rename_i hTaken
      exact ⟨hTaken, caller, rfl⟩
  all_goals repeat' split at h
  all_goals cases h

/-- A send is lost by a `WSASend` or a completion that fails. -/
theorem SlotPc.sendLabel_loses {slot : Slot} {env : Env} {pc : SlotPc}
    (h : pc.sendLabel slot env = .loses) :
    (∃ caller batch, pc = .sendPost caller (.wsaSend batch) ∧ env ≠ .ok) ∨
      ∃ outcome, pc = .completed .send outcome ∧
        ∀ transferred, transferred ≠ 0 → outcome ≠ .succeeded transferred := by
  unfold SlotPc.sendLabel at h
  split at h
  case h_2 caller batch =>
    split at h
    · cases h
    · rename_i hFail
      exact .inl ⟨caller, batch, rfl, hFail⟩
  case h_3 semTimeout => exact .inr ⟨.failed semTimeout, rfl, by simp⟩
  case h_4 transferred =>
    split at h
    · cases h
    · rename_i hZero
      push Not at hZero
      refine .inr ⟨.succeeded transferred, rfl, ?_⟩
      intro other hOther hSame
      cases hSame
      exact hOther hZero.2
  all_goals repeat' split at h
  all_goals cases h

namespace Server

variable {ioThreads callers poolSize : Nat} {s : Server ioThreads callers poolSize}

/-- When nobody sends on a session that is live and not being closed, its send
queue is empty. -/
def SendsAll (s : Server ioThreads callers poolSize) : Prop :=
  ∀ k, (s.slots k).session.isReleased = false → (s.slots k).session.isCloseSocket = false →
    (s.slots k).pendingSend = 0 → (∀ t pc, .on k pc ∈ s.threads t → pc.sends = false) →
      (s.slots k).session.sendQueue = []

/-- On a session that is live and not being closed `WSASend` and its completion
do not fail. -/
structure SendsWell (s : Server ioThreads callers poolSize)
    (a : Thread ioThreads callers × Choice poolSize) : Prop where
  post : ∀ k caller batch rest, s.threads a.1 = .on k (.sendPost caller (.wsaSend batch)) :: rest →
    (s.slots k).session.isReleased = false → (s.slots k).session.isCloseSocket = false →
      a.2 = .env .ok
  complete : ∀ k outcome rest, s.threads a.1 = .on k (.completed .send outcome) :: rest →
    (s.slots k).session.isReleased = false → (s.slots k).session.isCloseSocket = false →
      ∃ transferred, transferred ≠ 0 ∧ outcome = .succeeded transferred

/-- Nobody finds the flag taken, the queue not empty and the holder about to
clear the flag, unless somebody else is about to try the flag too. -/
structure NoLostWakeup (s : Server ioThreads callers poolSize)
    (a : Thread ioThreads callers × Choice poolSize) : Prop extends SendsWell s a where
  miss : ∀ k caller rest, s.threads a.1 = .on k (.sendPost caller .readySending) :: rest →
    (s.slots k).session.isReleased = false → (s.slots k).session.isCloseSocket = false →
    (s.slots k).session.isSending ≠ 0 → (s.slots k).session.sendQueue ≠ [] →
    (∃ t pc, .on k pc ∈ s.threads t ∧ pc.clearsFlag = true) →
      (s.view k).pcs.countP (fun pc => pc.triesFlag = true) ≠ 1

theorem NoLostWakeup.keepsAwake {t : Thread ioThreads callers} {env : Env} {k : Fin poolSize}
    {pc : SlotPc} {rest : List (Frame poolSize)} (h : NoLostWakeup s (t, .env env))
    (hTop : s.threads t = .on k pc :: rest) :
    (s.view k).sending.KeepsAwake (pc.sendLabel (s.slots k) env) := by
  constructor
  · rintro hLabel ⟨hLive, hOpen⟩ hQueue hClearing
    obtain ⟨hTaken, caller, rfl⟩ := SlotPc.sendLabel_misses hLabel
    have hTries : (s.view k).sending.total SendAct.trying =
        (s.view k).pcs.countP (fun pc => pc.triesFlag = true) := by
      rw [SlotView.sending_total, countP_eq_sum]
      simp only [SlotPc.sendActs_trying]
    rw [hTries]
    refine h.miss k caller rest hTop hLive hOpen hTaken hQueue ?_
    obtain ⟨a, hMem, hClears⟩ := exists_of_total hClearing
    obtain ⟨pc', hPc, hAct⟩ := SlotView.mem_sending_acts.mp hMem
    obtain ⟨t', hFrame⟩ := mem_view_pcs.mp hPc
    refine ⟨t', pc', hFrame, ?_⟩
    have hLe : a.clearing ≤ (pc'.sendActs.map SendAct.clearing).sum :=
      List.single_le_sum (fun _ _ => Nat.zero_le _) _ (List.mem_map_of_mem hAct)
    rw [SlotPc.sendActs_clearing] at hLe
    by_contra hNot
    rw [if_neg hNot] at hLe
    omega
  · rintro hLabel ⟨hLive, hOpen⟩
    rcases SlotPc.sendLabel_loses hLabel with ⟨caller, batch, rfl, hFail⟩ | ⟨outcome, rfl, hFail⟩
    · cases h.post k caller batch rest hTop hLive hOpen
      exact hFail rfl
    · obtain ⟨transferred, hTransferred, rfl⟩ := h.complete k outcome rest hTop hLive hOpen
      exact hFail transferred hTransferred rfl

/-- In every run without a lost wake-up no packet is left behind. -/
theorem sendsAll_of_noLostWakeup (h : Reached NoLostWakeup s) : s.SendsAll := by
  intro k hLive hOpen hPending hQuiet
  have hReached := Reached.view k (fun v pc env => v.sending.KeepsAwake (pc.sendLabel v.slot env))
    (fun _ hGuard hTop => NoLostWakeup.keepsAwake hGuard hTop) h
  have hAwake := (SlotView.awake_of_reachable (fun hKeeps => hKeeps) hReached).awake ⟨hLive, hOpen⟩
  by_contra hQueue
  refine hAwake hQueue ?_
  have hNone : (s.view k).sending.total SendAct.wakes = 0 := by
    rw [SlotView.sending_total]
    apply sum_map_eq_zero
    intro pc hPc
    obtain ⟨t, hFrame⟩ := mem_view_pcs.mp hPc
    by_contra hWakes
    have hSends := SlotPc.sends_of_wakes hWakes
    rw [hQuiet t pc hFrame] at hSends
    cases hSends
  rw [hNone, add_zero]
  exact hPending

/-- A test for sends that do not fail. -/
def sendsWell (s : Server ioThreads callers poolSize)
    (a : Thread ioThreads callers × Choice poolSize) : Bool :=
  match s.threads a.1 with
  | .on _ (.sendPost _ (.wsaSend _)) :: _ => match a.2 with
    | .env .ok => true
    | _ => false
  | .on _ (.completed .send (.succeeded transferred)) :: _ => decide (transferred ≠ 0)
  | .on _ (.completed .send (.failed _)) :: _ => false
  | _ => true

theorem sendsWell_of_test {a : Thread ioThreads callers × Choice poolSize}
    (h : sendsWell s a = true) : SendsWell s a := by
  unfold sendsWell at h
  constructor
  · intro k caller batch rest hTop _ _
    rw [hTop] at h
    simp only at h
    split at h
    · assumption
    · cases h
  · intro k outcome rest hTop _ _
    rw [hTop] at h
    cases outcome with
    | failed => cases h
    | succeeded transferred => exact ⟨transferred, of_decide_eq_true h, rfl⟩

/-- A test for the guard: whoever finds the flag taken sees an empty queue. -/
def missesNothing (s : Server ioThreads callers poolSize)
    (a : Thread ioThreads callers × Choice poolSize) : Bool :=
  sendsWell s a && match s.threads a.1 with
    | .on k (.sendPost _ .readySending) :: _ =>
        decide ((s.slots k).session.isSending = 0 ∨ (s.slots k).session.sendQueue = [])
    | _ => true

theorem noLostWakeup_of_missesNothing {a : Thread ioThreads callers × Choice poolSize}
    (h : missesNothing s a = true) : NoLostWakeup s a := by
  rw [missesNothing, Bool.and_eq_true] at h
  refine ⟨sendsWell_of_test h.1, ?_⟩
  intro k caller rest hTop _ _ hTaken hQueue
  have hTest := h.2
  rw [hTop] at hTest
  rcases of_decide_eq_true hTest with hFree | hEmpty
  · exact absurd hFree hTaken
  · exact absurd hEmpty hQueue

/-- A connection and two packets sent on it one after the other. -/
def twoSendsRun : List (Thread 1 2 × Choice 1) :=
  goes .accept 24 ++ (.caller 0, .call 1 (.sendPacket 7)) :: goes (.caller 0) 25 ++
    (.io 0, .completion 0 .send (.succeeded 5)) :: goes (.io 0) 15 ++
    (.caller 1, .call 1 (.sendPacket 8)) :: goes (.caller 1) 25 ++
    (.io 0, .completion 0 .send (.succeeded 5)) :: goes (.io 0) 15

theorem sendsAll_of_noLostWakeup_twoSends :
    ∃ s : Server 1 2 1, (s.slots 0).session.sendQueue = [] ∧ (∀ t, s.threads t = []) ∧
      s.history.map Prod.snd =
        [.popped, .published 1, .bound 1, .onConnected 1, .onSent 1, .onSent 1] := by
  have hRun : (exec (checked missesNothing step) (start 1 2 1) twoSendsRun).map
      (fun s => decide ((s.slots 0).session.isReleased = false ∧
        (s.slots 0).session.isCloseSocket = false ∧ (s.slots 0).pendingSend = 0 ∧
        (∀ t, s.threads t = []) ∧ s.history.map Prod.snd =
          [.popped, .published 1, .bound 1, .onConnected 1, .onSent 1, .onSent 1])) =
      some true := by
    decide +kernel
  obtain ⟨s, hExec, hState⟩ := Option.map_eq_some_iff.mp hRun
  obtain ⟨hLive, hOpen, hPending, hIdle, hHistory⟩ := of_decide_eq_true hState
  have hQuiet : ∀ t pc, .on 0 pc ∈ s.threads t → pc.sends = false := by
    intro t pc hFrame
    rw [hIdle t] at hFrame
    cases hFrame
  exact ⟨s, sendsAll_of_noLostWakeup (reachable_of_checked noLostWakeup_of_missesNothing hExec)
    0 hLive hOpen hPending hQuiet, hIdle, hHistory⟩

/-- The IO thread has finished a send and sees an empty queue. A caller appends a
packet and finds the flag taken; then the IO thread clears the flag. -/
def strandedRun : List (Thread 1 2 × Choice 1) :=
  goes .accept 24 ++ (.caller 0, .call 1 (.sendPacket 7)) :: goes (.caller 0) 25 ++
    (.io 0, .completion 0 .send (.succeeded 5)) :: goes (.io 0) 12 ++
    (.caller 1, .call 1 (.sendPacket 8)) :: goes (.caller 1) 12 ++ goes (.io 0) 3

theorem sendsAll_fails : ¬ ∀ s : Server 1 2 1, Reached SendsWell s → s.SendsAll := by
  intro h
  have hRun : (exec (checked sendsWell step) (start 1 2 1) strandedRun).map
      (fun s => decide ((s.slots 0).session.isReleased = false ∧
        (s.slots 0).session.isCloseSocket = false ∧ (s.slots 0).pendingSend = 0 ∧
        (∀ t, s.threads t = []) ∧ (s.slots 0).session.sendQueue = [8])) = some true := by
    decide +kernel
  obtain ⟨s, hExec, hState⟩ := Option.map_eq_some_iff.mp hRun
  obtain ⟨hLive, hOpen, hPending, hIdle, hQueue⟩ := of_decide_eq_true hState
  have hEmpty := h s (reachable_of_checked sendsWell_of_test hExec) 0 hLive hOpen hPending (by
    intro t pc hFrame
    rw [hIdle t] at hFrame
    cases hFrame)
  rw [hQueue] at hEmpty
  cases hEmpty

end Server

end NfNetwork.Net
