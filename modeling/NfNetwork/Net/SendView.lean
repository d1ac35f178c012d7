import NfNetwork.Net.SendLife
import NfNetwork.Net.SlotView

/-! The sending part of one session's view: every step of the code is a move of
the sending machine, and the counts of the session keep its parts apart. -/
namespace NfNetwork.Net

open Machinery

section Refinement

def SendPostPc.sendAct : SendPostPc → SendAct
  | .readySending => .tries
  | .sampleSize => .samples
  | .clearFlag => .clears
  | .resetCount queueSize => .sampled queueSize
  | .dequeue queueSize i _ => .takes (queueSize - i)
  | .store queueSize i _ _ | .count queueSize i _ _ => .stores (queueSize - (i + 1))
  | .checkCount _ => .checks
  | .markPosted _ => .marks
  | .increment _ | .resetOverlapped _ | .socketClosed _ | .readSocket _ | .wsaSend _ => .sending
  | .threw => .threw

def FinishPc.sendAct (caller : FinishCaller) (pc : FinishPc) : SendAct :=
  match caller, pc with
  | .ioThread, .clearFlag => .finishes true
  | .ioThread, _ => .finishes false
  | .release _, .clearFlag => .releasing 2
  | .release _, _ => .releasing 1

def ReleasePc.sendActs : ReleasePc → List SendAct
  | .countDisconnected => []
  | .push => [.releasing 3]
  | _ => [.releasing 0]

def InitPc.sendAct : InitPc → SendAct
  | .checkReleased | .readPrevUid | .nextUid _ | .setSocket => .inits false
  | _ => .inits true

/-- The acts on the send queue that a place in the code stands for. -/
def SlotPc.sendActs : SlotPc → List SendAct
  | .enqueue _ _ => [.adds]
  | .sendPost _ pc => [pc.sendAct]
  | .finishSending caller pc => [pc.sendAct caller]
  | .release _ pc => pc.sendActs
  | .completed .send _ | .checkClosed .send => [.completed]
  | .sentReadId | .sent _ => [.tries]
  | .init pc => [pc.sendAct]
  | _ => []

/-- The label of the move made from a place. -/
def SlotPc.sendLabel (slot : Slot) (env : Env) : SlotPc → SendLabel
  | .sendPost _ .readySending => if slot.session.isSending = 0 then .quiet else .misses
  | .sendPost _ (.wsaSend _) => if env = .ok then .quiet else .loses
  | .completed .send (.failed _) => .loses
  | .completed .send (.succeeded transferred) =>
      if slot.session.isReleased = true ∨ transferred ≠ 0 then .quiet else .loses
  | _ => .quiet

/-- What the sending machine sees of a slot. -/
def Slot.sendCore (slot : Slot) : SendCore where
  released := slot.session.isReleased
  closed := slot.session.isCloseSocket
  hasSocket := slot.session.hasSocket
  ioCount := slot.session.ioCount
  sendQueue := slot.session.sendQueue
  isSending := slot.session.isSending
  packetCount := slot.session.packetCount
  pending := slot.pendingSend

def Effect.sendActs (e : Effect) : List SendAct := e.next.flatMap SlotPc.sendActs

/-- A sending row applied among further acts of the same frames. -/
abbrev Sends (c : SendCore) (acts : List SendAct) (label : SendLabel) (c' : SendCore)
    (acts' : List SendAct) : Prop :=
  Within SendRow c acts label c' acts'

/-- A step that changes neither the sending side nor what the thread is about to do with it. -/
theorem Sends.quiet {c c' : SendCore} {acts acts' : List SendAct}
    (hCore : c' = { c with ioCount := c'.ioCount }) (hActs : acts' = acts) :
    Sends c acts .quiet c' acts' := by
  rw [hCore, hActs]
  exact .of_rule (.quiet c acts _)

/-- The exchange on the flag, as the sending side sees it. -/
theorem Slot.sendCore_exchange (slot : Slot) (exchange comperand : Nat) :
    (slot.set (slot.session.exchangeSending exchange comperand)).sendCore =
      slot.sendCore.exchange exchange comperand := by
  by_cases hFlag : slot.session.isSending = comperand
  all_goals
    simp [Slot.sendCore, SendCore.exchange, NetSession.exchangeSending, hFlag]

variable {slot : Slot} {env : Env} {e : Effect}

attribute [local simp] SendPostPc.sendAct FinishPc.sendAct ReleasePc.sendActs InitPc.sendAct
  SlotPc.sendActs SlotPc.sendLabel Effect.sendActs

/-- `SendPost` step by step: try the flag, look at the queue, fill the batch, post it. -/
theorem SendPostPc.step_sends {caller : SendCaller} {pc : SendPostPc}
    (h : pc.step slot env caller = some e) :
    Sends slot.sendCore (SlotPc.sendPost caller pc).sendActs
      ((SlotPc.sendPost caller pc).sendLabel slot env) e.slot.sendCore e.sendActs := by
  cases pc
  case readySending =>
    simp only [SendPostPc.step, update, goto] at h
    split at h <;> cases h
    · rename_i hFree
      rw [SlotPc.sendLabel, if_pos hFree]
      exact .of_rule (.lock slot.sendCore hFree)
    · rename_i hTaken
      rw [SlotPc.sendLabel, if_neg hTaken]
      exact .of_rule (.miss slot.sendCore hTaken)
  case sampleSize =>
    simp only [SendPostPc.step, goto] at h
    split at h <;> [skip; split at h] <;> cases h
    · exact .of_rule (.throw slot.sendCore)
    · rename_i hEmpty
      have hEmpty : slot.sendCore.sendQueue = [] := List.length_eq_zero_iff.mp hEmpty
      exact .of_rule (.sampleEmpty slot.sendCore hEmpty)
    · rename_i hSome
      have hSome : slot.sendCore.sendQueue ≠ [] := fun hEmpty => hSome (congrArg List.length hEmpty)
      exact .of_rule (.sample slot.sendCore hSome)
  case clearFlag =>
    cases h
    rw [Slot.sendCore_exchange]
    exact .of_rule (.clear slot.sendCore)
  case markPosted batch =>
    cases h
    rw [Slot.sendCore_exchange]
    exact .of_rule (.mark slot.sendCore)
  case resetCount queueSize =>
    cases h
    exact .of_rule (.start slot.sendCore queueSize)
  case dequeue queueSize i batch =>
    simp only [SendPostPc.step, update, goto] at h
    split at h
    · rename_i hMore
      obtain ⟨left, hLeft⟩ := Nat.exists_eq_add_of_lt hMore
      have hTakes : queueSize - i = left + 1 := by omega
      have hStores : queueSize - (i + 1) = left := by omega
      split at h <;> cases h
      · rename_i hNone
        rw [SlotPc.sendActs, SendPostPc.sendAct, hTakes]
        exact .of_rule (.takeNone slot.sendCore left hNone)
      · rename_i packet sendQueue hSome
        have hRow := Within.of_rule (SendRow.take slot.sendCore left packet sendQueue hSome)
        rw [← hTakes, ← hStores] at hRow
        exact hRow
    · rename_i hLast
      have hTakes : queueSize - i = 0 := by omega
      cases h
      rw [SlotPc.sendActs, SendPostPc.sendAct, hTakes]
      exact .of_rule (.takeLast slot.sendCore)
  case count queueSize i batch packet =>
    cases h
    exact .of_rule (.count slot.sendCore (queueSize - (i + 1)))
  case checkCount batch =>
    simp only [SendPostPc.step, goto] at h
    split at h <;> cases h
    · rename_i hNone
      exact .of_rule (.checkNone slot.sendCore hNone)
    · rename_i hSome
      exact .of_rule (.check slot.sendCore hSome)
  case socketClosed batch =>
    simp only [SendPostPc.step, goto] at h
    split at h <;> cases h
    · rename_i hClosed
      exact .of_rule (.stop slot.sendCore .sending (.inl rfl) (.inl hClosed))
    · exact .quiet rfl rfl
  case readSocket batch =>
    simp only [SendPostPc.step, goto] at h
    split at h <;> cases h
    · exact .quiet rfl rfl
    · rename_i hNone
      have hNone : slot.sendCore.hasSocket = false := Bool.not_eq_true _ ▸ hNone
      exact .of_rule (.stop slot.sendCore .sending (.inl rfl) (.inr hNone))
  case wsaSend batch =>
    cases env <;> cases h
    · exact .of_rule (.post slot.sendCore)
    all_goals exact .of_rule (.lose slot.sendCore .sending (.inl rfl))
  case store | increment | resetOverlapped =>
    cases h
    exact .quiet rfl rfl
  case threw => cases h

/-- `RecvPost` leaves the sending side alone. -/
theorem RecvPostPc.step_sends {caller : RecvCaller} {pc : RecvPostPc}
    (h : pc.step slot env caller = some e) :
    Sends slot.sendCore [] .quiet e.slot.sendCore e.sendActs := by
  cases pc
  case cancelFull =>
    cases h
    cases caller <;> exact .of_rule (.close slot.sendCore)
  case wsaRecv => cases env <;> cases h <;> cases caller <;> exact .quiet rfl rfl
  all_goals simp only [RecvPostPc.step, goto, update] at h
  all_goals repeat' split at h
  all_goals cases h
  all_goals cases caller <;> exact .quiet rfl rfl

/-- A release empties it. -/
theorem ReleasePc.step_sends {id : Option Nat} {pc : ReleasePc} (h : pc.step slot id = some e) :
    Sends slot.sendCore pc.sendActs .quiet e.slot.sendCore e.sendActs := by
  cases pc
  case close =>
    cases h
    exact Within.of_rule_tail (SendRow.close slot.sendCore) [SendAct.releasing 0]
  case closeSocket =>
    cases h
    exact .of_rule (.closeSocket slot.sendCore)
  case drainCheck =>
    simp only [ReleasePc.step, goto] at h
    split at h <;> cases h
    · rename_i hEmpty
      exact .of_rule (.drained slot.sendCore (List.isEmpty_iff.mp hEmpty))
    · exact .quiet rfl rfl
  case drainDequeue =>
    simp only [ReleasePc.step, goto] at h
    split at h <;> cases h
    · exact .quiet rfl rfl
    · rename_i packet sendQueue hSome
      exact .of_rule (.drain slot.sendCore packet sendQueue hSome)
  case push =>
    cases h
    exact .of_rule (.push slot.sendCore)
  case countDisconnected =>
    cases h
    cases id <;> exact .quiet rfl rfl
  case prevUid | clearId =>
    cases h
    exact .quiet rfl rfl

/-- `FinishSending` frees the batch and takes the flag down. -/
theorem FinishPc.step_sends {caller : FinishCaller} {pc : FinishPc}
    (h : pc.step slot caller = some e) :
    Sends slot.sendCore [pc.sendAct caller] .quiet e.slot.sendCore e.sendActs := by
  cases caller <;> cases pc
  case release.resetCount =>
    cases h
    exact .of_rule (.resetReleased slot.sendCore)
  case ioThread.resetCount =>
    cases h
    exact .of_rule (.resetFinished slot.sendCore)
  case release.clearFlag =>
    cases h
    rw [Slot.sendCore_exchange]
    exact .of_rule (.unlockReleased slot.sendCore)
  case ioThread.clearFlag =>
    cases h
    rw [Slot.sendCore_exchange]
    exact .of_rule (.unlock slot.sendCore)
  all_goals simp only [FinishPc.step, goto] at h
  all_goals repeat' split at h
  all_goals cases h
  all_goals exact .quiet rfl rfl

/-- `Init` resets it. -/
theorem InitPc.step_sends {pc : InitPc} (h : pc.step slot = some e) :
    Sends slot.sendCore [pc.sendAct] .quiet e.slot.sendCore e.sendActs := by
  cases pc
  case checkReleased =>
    simp only [InitPc.step, goto] at h
    split at h <;> cases h
    · exact .quiet rfl rfl
    · exact .of_rule (.abandon slot.sendCore)
  case readPrevUid =>
    cases h
    exact .quiet rfl rfl
  case nextUid oldSessionUid =>
    simp only [InitPc.step, update] at h
    split at h <;> cases h
    all_goals exact .quiet rfl rfl
  case setSocket => cases h; exact .of_rule (.setSocket slot.sendCore)
  case clearQueue => cases h; exact .of_rule (.clearQueue slot.sendCore)
  case resetCount => cases h; exact .of_rule (.clearCount slot.sendCore)
  case clearFlag => cases h; exact .of_rule (.clearFlag slot.sendCore)
  case openSocket => cases h; exact .of_rule (.openSocket slot.sendCore)
  case publish => cases h; exact .of_rule (.publish slot.sendCore)

/-- Each step of the code is one row of the sending table. -/
theorem SlotPc.step_sends {pc : SlotPc} (h : pc.step slot env = some e) :
    Sends slot.sendCore pc.sendActs (pc.sendLabel slot env) e.slot.sendCore e.sendActs := by
  cases pc
  case sendPost caller pc => exact SendPostPc.step_sends h
  case recvPost caller pc => exact RecvPostPc.step_sends h
  case release id pc => exact ReleasePc.step_sends h
  case finishSending caller pc => exact FinishPc.step_sends h
  case init pc => exact InitPc.step_sends h
  case addRef id packet =>
    cases h
    exact .of_rule (.arrive slot.sendCore)
  case enqueue id packet =>
    cases h
    exact .of_rule (.enqueue slot.sendCore packet)
  case disconnect | cancelTimedOut | recvCancel =>
    cases h
    exact .of_rule (.close slot.sendCore)
  case tryRelease id =>
    simp only [SlotPc.step, goto] at h
    split at h <;> cases h
    · rename_i hWin
      exact .of_rule (.win slot.sendCore hWin.1 hWin.2)
    · exact .quiet rfl rfl
  case completed kind outcome =>
    cases kind with
    | recv =>
        cases outcome
        all_goals simp only [SlotPc.step, goto] at h
        all_goals cases h
        all_goals refine .quiet rfl ?_
        all_goals simp only [Effect.sendActs]
        all_goals repeat' split
        all_goals rfl
    | send =>
        cases outcome with
        | failed semTimeout =>
            simp only [SlotPc.step, goto] at h
            cases h
            have hNone : Effect.sendActs { slot := slot, next :=
                if slot.session.isReleased = true then [SlotPc.decrement]
                else if semTimeout = true then [.cancelTimedOut] else [.decrement] } = [] := by
              simp only [Effect.sendActs]
              repeat' split
              all_goals rfl
            rw [hNone]
            exact .of_rule (.lose slot.sendCore .completed (.inr rfl))
        | succeeded transferred =>
            simp only [SlotPc.step, goto] at h
            split at h
            · rename_i hReleased
              cases h
              rw [SlotPc.sendLabel, if_pos (.inl hReleased)]
              exact .of_rule (.drop slot.sendCore hReleased)
            · rename_i hLive
              split at h <;> cases h
              · rename_i hZero
                rw [SlotPc.sendLabel, if_neg (not_or.mpr ⟨hLive, not_not.mpr hZero⟩)]
                exact .of_rule (.lose slot.sendCore .completed (.inr rfl))
              · rename_i hTransferred
                rw [SlotPc.sendLabel, if_pos (.inr hTransferred)]
                exact .quiet rfl rfl
  case checkClosed kind =>
    simp only [SlotPc.step, goto] at h
    split at h <;> cases h
    · rename_i hClosed
      cases kind with
      | recv => exact .quiet rfl rfl
      | send => exact .of_rule (.stop slot.sendCore .completed (.inr rfl) (.inl hClosed))
    · cases kind with
      | recv => exact .quiet rfl rfl
      | send => exact .of_rule (.finish slot.sendCore)
  case acquireCheckReleased id purpose =>
    simp only [SlotPc.step, goto] at h
    split at h <;> cases h
    · exact .quiet rfl rfl
    · cases purpose <;> exact .quiet rfl rfl
  case recvLoop => cases env <;> cases h <;> exact .quiet rfl rfl
  case bind => cases env <;> cases h <;> exact .quiet rfl rfl
  case decrement =>
    cases h
    refine .quiet rfl ?_
    simp only [Effect.sendActs]
    repeat' split
    all_goals rfl
  all_goals simp only [SlotPc.step, goto, update] at h
  all_goals repeat' split at h
  all_goals cases h
  all_goals exact .quiet rfl rfl

end Refinement

/-- The sending machine's state. -/
def SlotView.sending (v : SlotView) : Sending where
  core := v.slot.sendCore
  acts := v.pcs.bind fun pc => pc.sendActs

def SlotAction.sendLabel (slot : Slot) : SlotAction → SendLabel
  | .run pc env => pc.sendLabel slot env
  | _ => .quiet

/-- Totals over the acts are totals over the places. -/
theorem SlotView.sending_total (v : SlotView) (f : SendAct → Nat) :
    v.sending.total f = (v.pcs.map fun pc => (pc.sendActs.map f).sum).sum := by
  rw [Population.total, SlotView.sending, sum_map_bind]

/-- Every act belongs to the place of some thread. -/
theorem SlotView.mem_sending_acts {v : SlotView} {a : SendAct} :
    a ∈ v.sending.acts ↔ ∃ pc ∈ v.pcs, a ∈ pc.sendActs :=
  Multiset.mem_bind

/-- The acts of one more thread come on top. -/
theorem SlotView.sending_cons (slot : Slot) (unused : Nat) (log : List Event) (pc : SlotPc)
    (pcs : Multiset SlotPc) :
    (SlotView.mk slot unused log (pc ::ₘ pcs)).sending =
      ⟨slot.sendCore, pc.sendActs + (SlotView.mk slot unused log pcs).sending.acts⟩ := by
  rw [SlotView.sending, Multiset.cons_bind]
  rfl

/-- Every step of one session's view is a step of the sending machine. -/
theorem SlotStep.sending {v v' : SlotView} {a : SlotAction} (h : SlotStep v a v') :
    SendStep v.sending (a.sendLabel v.slot) v'.sending := by
  have hNone : v.sending.acts = ([] : List SendAct) + v.sending.acts := (zero_add _).symm
  have hQuiet := SendRow.quiet v.sending.core [] v.sending.core.ioCount
  cases h with
  | stay =>
      have hStep := Applies.row hNone hQuiet
      rwa [← hNone] at hStep
  | find =>
      rw [SlotView.sending_cons]
      exact .row hNone hQuiet
  | pop hUnused hAlone =>
      rw [SlotView.sending_cons]
      exact .row hNone (.pop v.sending.core)
  | complete hTake =>
      rename_i kind outcome slot
      rw [SlotView.sending_cons]
      cases kind with
      | recv =>
          simp only [Slot.takeCompletion] at hTake
          split at hTake <;> cases hTake
          exact .row hNone hQuiet
      | send =>
          simp only [Slot.takeCompletion] at hTake
          split at hTake <;> cases hTake
          rename_i hPending
          exact .row hNone (.complete v.sending.core hPending)
  | run hPcs hStep =>
      rename_i pc env e others
      have hSends := SlotPc.step_sends hStep
      have hActs : v.sending.acts =
          pc.sendActs + others.bind fun pc => (pc.sendActs : Multiset SendAct) := by
        rw [SlotView.sending, hPcs, Multiset.cons_bind]
      have hApplies := Within.applies (p := v.sending) hSends hActs
      rwa [Effect.sendActs, ← Multiset.coe_bind, ← Multiset.add_bind] at hApplies

section Counts

/-- What a place does to the send queue it does to the session. -/
theorem SlotPc.sendActs_le (pc : SlotPc) :
    (pc.sendActs.map SendAct.uses).sum ≤ (pc.acts.map Act.uses).sum ∧
      (pc.sendActs.map SendAct.displaces).sum ≤ (pc.acts.map Act.displaces).sum ∧
      (pc.sendActs.map SendAct.completing).sum ≤ (pc.acts.map Act.holds).sum := by
  cases pc
  case sendPost caller pc =>
    cases caller <;> cases pc <;>
      simp [sendActs, SendPostPc.sendAct, acts, SendPostPc.armed, SendCaller.act, SendAct.uses,
        SendAct.displaces, SendAct.completing, Act.uses, Act.holds, Act.displaces]
  case release id pc =>
    cases pc <;>
      simp [sendActs, ReleasePc.sendActs, acts, ReleasePc.acts, SendAct.uses, SendAct.displaces,
        SendAct.completing, Act.displaces]
  case finishSending caller pc =>
    cases caller <;> cases pc <;>
      simp [sendActs, FinishPc.sendAct, acts, SendAct.uses, SendAct.displaces, SendAct.completing,
        Act.uses, Act.displaces]
  case completed kind outcome =>
    cases kind <;>
      simp [sendActs, acts, SendAct.uses, SendAct.displaces, SendAct.completing, Act.holds]
  case checkClosed kind =>
    cases kind <;>
      simp [sendActs, acts, SendAct.uses, SendAct.displaces, SendAct.completing, Act.holds]
  case init pc =>
    cases pc <;>
      simp [sendActs, InitPc.sendAct, acts, SendAct.uses, SendAct.displaces, SendAct.completing,
        Act.displaces]
  all_goals
    simp [sendActs, acts, SendAct.uses, SendAct.displaces, SendAct.completing, Act.uses]

/-- Measures of the sending table are bounded by those of the life table. -/
theorem SlotView.sending_total_le (v : SlotView) {f : SendAct → Nat} {g : Act → Nat}
    (h : ∀ pc : SlotPc, (pc.sendActs.map f).sum ≤ (pc.acts.map g).sum) :
    v.sending.total f ≤ v.life.total g := by
  rw [v.sending_total, v.total_eq fun _ => rfl]
  exact Multiset.sum_map_le_sum_map _ _ fun pc _ => h pc

/-- The counts of a session keep its sending parts apart. -/
theorem SlotView.excludes {v : SlotView} (h : v.life.Sound) : v.sending.Excludes := by
  have hUses := v.sending_total_le fun pc => pc.sendActs_le.1
  have hDisplaces := v.sending_total_le fun pc => pc.sendActs_le.2.1
  have hCompleting := v.sending_total_le fun pc => pc.sendActs_le.2.2
  have hPlace := h.place
  constructor
  · intro hReleased
    have hNone := h.live hReleased
    omega
  · intro hLive
    have hOne : v.life.core.live = 1 := if_neg (by rw [show v.life.core.released = false from hLive]; simp)
    omega
  · omega
  · intro hZero
    have hCounted := h.counted
    have hUsed : v.life.total Act.uses ≤ v.life.total Act.holds := total_mono Act.uses_le_holds
    have hCount : v.life.core.ioCount = 0 := hZero
    have hPending : v.sending.core.pending ≤ v.life.core.pending := Nat.le_add_left _ _
    omega

end Counts

section Runs

variable {index : Nat} {v : SlotView} {Allowed : SlotView → SlotPc → Env → Prop}

/-- In every run the flag is a lock. -/
theorem SlotView.locked_of_reachable
    (h : Reachable SlotStep (SlotAction.Meets Allowed) (SlotView.start index) v) :
    v.sending.Locked := by
  apply h.invariant
  · constructor <;>
      simp [SlotView.sending, SlotView.start, Slot.sendCore, NetSession.new, Population.total]
  · intro v v' a hReached hLocked _ hStep
    exact hLocked.step (SlotView.excludes (SlotView.sound_of_reachable hReached)) hStep.sending

/-- In the runs that keep awake a queue that is not empty is looked at. -/
theorem SlotView.awake_of_reachable
    (hAllowed : ∀ {v pc env}, Allowed v pc env → v.sending.KeepsAwake (pc.sendLabel v.slot env))
    (h : Reachable SlotStep (SlotAction.Meets Allowed) (SlotView.start index) v) :
    v.sending.Awake := by
  apply h.invariant
  · have hStart : Reachable SlotStep (SlotAction.Meets Allowed) (SlotView.start index) _ := .refl
    refine ⟨SlotView.locked_of_reachable hStart, ?_, ?_⟩
    all_goals
      simp [SlotView.sending, SlotView.start, Slot.sendCore, NetSession.new, SendCore.Active]
  · intro v v' a hReached hAwake hMeets hStep
    refine hAwake.step (SlotView.excludes (SlotView.sound_of_reachable hReached)) ?_ hStep.sending
    cases a with
    | run pc env => exact hAllowed hMeets
    | _ => exact ⟨nofun, nofun⟩

end Runs

end NfNetwork.Net
