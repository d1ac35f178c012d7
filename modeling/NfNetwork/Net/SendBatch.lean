import NfNetwork.Net.SendView

/-! Who touches the batch of a session. Of the holder of the flag, `Release` and
`Init` there is at most one in any state, so what it knows of `PacketBuffer` and
`PacketCount` stays true while other threads run. -/
namespace NfNetwork.Net

open Machinery

/-- The acts that keep others from the batch. -/
def SendAct.owns (a : SendAct) : Nat := a.readies + a.posted + a.displaces

/-- The places in the code that do. -/
def SlotPc.owns : SlotPc → Bool
  | .sendPost _ .readySending => false
  | .sendPost _ _ | .finishSending _ _ | .init _ => true
  | .release _ .countDisconnected => false
  | .release _ _ => true
  | .completed .send _ | .checkClosed .send => true
  | _ => false

theorem SlotPc.sum_owns (pc : SlotPc) :
    (pc.sendActs.map SendAct.owns).sum = if pc.owns then 1 else 0 := by
  cases pc
  case sendPost caller pc => cases pc <;> rfl
  case finishSending caller pc => cases caller <;> cases pc <;> rfl
  case release id pc => cases pc <;> rfl
  case init pc => cases pc <;> rfl
  case completed kind outcome => cases kind <;> rfl
  case checkClosed kind => cases kind <;> rfl
  all_goals rfl

theorem Sending.total_owns (v : Sending) : v.total SendAct.owns =
    v.total SendAct.readies + v.total SendAct.posted + v.total SendAct.displaces := by
  simp only [Population.total, ← Multiset.sum_map_add]
  rfl

/-- At most one of them at a time. -/
theorem Sending.Locked.owns_le_one {v : Sending} (h : v.Locked) (hExcludes : v.Excludes) :
    v.total SendAct.owns ≤ 1 := by
  rw [v.total_owns]
  cases hReleased : v.core.released with
  | false =>
      have hFlag := h.flag hReleased
      have hNone := hExcludes.place hReleased
      unfold Sending.Flagged at hFlag
      omega
  | true =>
      have hIdle := h.idle hReleased
      have hUses := hExcludes.live hReleased
      have hReadies : v.total SendAct.readies ≤ v.total SendAct.uses :=
        total_mono SendAct.readies_le_uses
      have hPosted : v.total SendAct.posted ≤ v.total SendAct.completing + v.total SendAct.uses :=
        total_le_add SendAct.posted_le
      have hAlone := hExcludes.alone
      omega

section Alone

variable {v v' : SlotView} {pc : SlotPc} {others : Multiset SlotPc}

theorem SlotView.owns_alone (hLocked : v.sending.Locked) (hSound : v.life.Sound)
    (hPcs : v.pcs = pc ::ₘ others) (hOwns : pc.owns = true) :
    ∀ pc' ∈ others, pc'.owns = false := by
  have hLe := hLocked.owns_le_one (SlotView.excludes hSound)
  rw [v.sending_total, hPcs, Multiset.map_cons, Multiset.sum_cons, SlotPc.sum_owns, hOwns] at hLe
  intro pc' hMem
  have hOther : (pc'.sendActs.map SendAct.owns).sum ≤
      (others.map fun pc => (pc.sendActs.map SendAct.owns).sum).sum :=
    le_sum_map (f := fun pc => (pc.sendActs.map SendAct.owns).sum) hMem
  rw [SlotPc.sum_owns] at hOther
  cases hOwns' : pc'.owns with
  | false => rfl
  | true =>
      rw [hOwns', if_pos rfl] at hOther
      rw [if_pos rfl] at hLe
      omega

theorem SlotView.sum_le_sending {f : SendAct → Nat} (hMem : pc ∈ v.pcs) :
    (pc.sendActs.map f).sum ≤ v.sending.total f := by
  rw [v.sending_total]
  exact le_sum_map (f := fun pc => (pc.sendActs.map f).sum) hMem

/-- While the kernel owes a completion nobody owns the batch. -/
theorem SlotView.not_owns_of_pending (hLocked : v.sending.Locked) (hSound : v.life.Sound)
    (hPending : v.slot.pendingSend ≠ 0) (hMem : pc ∈ v.pcs) : pc.owns = false := by
  have hPending : v.sending.core.pending ≠ 0 := hPending
  have hLive : v.sending.core.released = false := by
    by_contra hReleased
    exact hPending (hLocked.idle (by simpa using hReleased)).1
  have hFlag := hLocked.flag hLive
  have hPlace := (SlotView.excludes hSound).place hLive
  have hSum : v.sending.total SendAct.owns = v.sending.total SendAct.readies +
      v.sending.total SendAct.posted + v.sending.total SendAct.displaces := v.sending.total_owns
  have hLe := SlotView.sum_le_sending (f := SendAct.owns) hMem
  unfold Sending.Flagged at hFlag
  rw [SlotPc.sum_owns] at hLe
  cases hOwns : pc.owns with
  | false => rfl
  | true =>
      rw [hOwns, if_pos rfl] at hLe
      omega

/-- What `FinishSending` and `ReadySending` know of the batch in between. -/
def SlotPc.knows (session : NetSession) : SlotPc → Prop
  | .sendPost _ (.count _ _ _ packet) => session.packetBuffer session.packetCount = packet
  | .finishSending _ (.free i _) => i ≤ session.packetCount
  | _ => True

theorem SlotPc.knows_of_not_owns {session : NetSession} (h : pc.owns = false) :
    pc.knows session := by
  unfold knows
  split
  · cases h
  · cases h
  · trivial

/-- A step of somebody who does not own the batch leaves it alone. -/
theorem SlotPc.step_batch {slot : Slot} {env : Env} {e : Effect} (h : pc.step slot env = some e)
    (hOwns : pc.owns = false) : e.slot.session.packetCount = slot.session.packetCount ∧
      e.slot.session.packetBuffer = slot.session.packetBuffer := by
  cases pc
  case sendPost caller pc =>
    cases pc
    case readySending =>
      simp only [SlotPc.step, SendPostPc.step, goto, update] at h
      split at h <;> cases h <;> exact ⟨rfl, rfl⟩
    all_goals cases hOwns
  case recvPost caller pc =>
    cases pc <;> simp only [SlotPc.step, RecvPostPc.step, goto, update] at h
    all_goals repeat' split at h
    all_goals cases h
    all_goals exact ⟨rfl, rfl⟩
  case release id pc =>
    cases pc
    case countDisconnected => cases h; exact ⟨rfl, rfl⟩
    all_goals cases hOwns
  case finishSending | init => cases hOwns
  case completed kind outcome => cases outcome <;> cases h <;> exact ⟨rfl, rfl⟩
  case bind => cases env <;> cases h <;> exact ⟨rfl, rfl⟩
  all_goals simp only [SlotPc.step, goto, update] at h
  all_goals repeat' split at h
  all_goals cases h
  all_goals exact ⟨rfl, rfl⟩

/-- Inside `SendPost` or `FinishSending`, past the first step. -/
def SlotPc.isInside : SlotPc → Bool
  | .sendPost _ .readySending | .finishSending _ .readCount => false
  | .sendPost _ _ | .finishSending _ _ => true
  | _ => false

theorem SlotPc.knows_of_not_inside {session : NetSession} (h : pc.isInside = false) :
    pc.knows session := by
  unfold knows
  split
  · cases h
  · cases h
  · trivial

/-- Neither is entered in the middle. -/
theorem SlotPc.step_isInside {slot : Slot} {env : Env} {e : Effect}
    (h : pc.step slot env = some e)
    (hSend : ∀ caller pc', pc ≠ .sendPost caller pc')
    (hFinish : ∀ caller pc', pc ≠ .finishSending caller pc') : ∀ pc' ∈ e.next, pc'.isInside = false := by
  intro pc' hMem
  cases pc
  case sendPost caller pc => exact absurd rfl (hSend caller pc)
  case finishSending caller pc => exact absurd rfl (hFinish caller pc)
  case recvPost caller pc =>
    cases pc <;> simp only [SlotPc.step, RecvPostPc.step, goto, update] at h
    all_goals repeat' split at h
    all_goals cases h
    all_goals cases caller <;> simp [RecvCaller.returned] at hMem
    all_goals try rcases hMem with rfl | rfl
    all_goals rfl
  case release id pc =>
    cases pc <;> simp only [SlotPc.step, ReleasePc.step, goto, update] at h
    all_goals repeat' split at h
    all_goals cases h
    case countDisconnected =>
      obtain ⟨id', _, rfl⟩ := List.mem_map.mp hMem
      rfl
    all_goals cases List.mem_singleton.mp hMem
    all_goals rfl
  case init pc =>
    cases pc <;> simp only [SlotPc.step, InitPc.step, goto, update] at h
    all_goals repeat' split at h
    all_goals cases h
    all_goals cases List.mem_singleton.mp hMem
    all_goals rfl
  case completed kind outcome =>
    cases outcome <;> cases h <;> revert hMem <;> repeat' split
    all_goals simp
    all_goals rintro rfl
    all_goals rfl
  case checkClosed kind =>
    cases kind <;> cases h <;> revert hMem <;> split <;> simp
    all_goals rintro rfl
    all_goals rfl
  case acquireCheckReleased id purpose =>
    cases purpose <;> cases h <;> revert hMem <;> split <;> simp [Purpose.acquired]
    all_goals rintro rfl
    all_goals rfl
  case recvLoop | bind =>
    cases env <;> cases h <;> cases List.mem_singleton.mp hMem <;> rfl
  all_goals simp only [SlotPc.step, goto, update] at h
  all_goals repeat' split at h
  all_goals cases h
  all_goals revert hMem
  all_goals simp
  all_goals rintro rfl
  all_goals rfl

/-- A step leaves its frames with what they know. -/
theorem SlotPc.step_knows {slot : Slot} {env : Env} {e : Effect} (h : pc.step slot env = some e)
    (hKnows : pc.knows slot.session) : ∀ pc' ∈ e.next, pc'.knows e.slot.session := by
  intro pc' hMem
  cases pc
  case sendPost caller pc =>
    cases pc <;> simp only [SlotPc.step, SendPostPc.step, goto, update] at h
    all_goals repeat' split at h
    all_goals cases h
    all_goals simp at hMem
    all_goals try rcases hMem with rfl | rfl
    all_goals simp [knows]
  case finishSending caller pc =>
    cases pc
    case clearFlag =>
      cases h
      cases caller <;> cases List.mem_singleton.mp hMem <;> trivial
    all_goals simp only [SlotPc.step, FinishPc.step, goto, update] at h
    all_goals repeat' split at h
    all_goals cases h
    all_goals cases List.mem_singleton.mp hMem
    all_goals simp [knows]
    omega
  all_goals exact knows_of_not_inside (step_isInside h (by simp) (by simp) pc' hMem)

/-- A fact about a place and the batch that can go wrong only where the place owns the batch. -/
structure BatchFact (Fact : NetSession → SlotPc → Prop) : Prop where
  free : ∀ {session pc}, SlotPc.owns pc = false → Fact session pc
  starts : ∀ {session pc}, SlotPc.starts pc = true → Fact session pc
  step : ∀ {slot env pc e}, SlotPc.step slot env pc = some e → Fact slot.session pc →
    ∀ pc' ∈ e.next, Fact e.slot.session pc'
  congr : ∀ {session session' pc}, session'.packetCount = session.packetCount →
    session'.packetBuffer = session.packetBuffer → Fact session pc → Fact session' pc

variable {Fact : NetSession → SlotPc → Prop}

theorem BatchFact.kept {a : SlotAction} (hFact : BatchFact Fact) (h : SlotStep v a v')
    (hLocked : v.sending.Locked) (hSound : v.life.Sound) (hAll : ∀ pc ∈ v.pcs, Fact v.slot.session pc) :
    ∀ pc ∈ v'.pcs, Fact v'.slot.session pc := by
  cases h with
  | stay => exact hAll
  | find | pop =>
      intro pc hMem
      rcases Multiset.mem_cons.mp hMem with rfl | hOld
      · exact hFact.starts rfl
      · exact hAll pc hOld
  | complete hTake =>
      intro pc hMem
      rw [Slot.takeCompletion_session hTake]
      rcases Multiset.mem_cons.mp hMem with rfl | hOld
      · exact hFact.starts rfl
      · exact hAll pc hOld
  | run hPcs hStep =>
      rename_i pc env e others
      intro pc' hMem
      rcases Multiset.mem_add.mp hMem with hNext | hOther
      · exact hFact.step hStep (hAll pc (by simp [hPcs])) pc' hNext
      · cases hOwns : pc.owns with
        | true => exact hFact.free (SlotView.owns_alone hLocked hSound hPcs hOwns pc' hOther)
        | false =>
            obtain ⟨hCount, hBuffer⟩ := SlotPc.step_batch hStep hOwns
            exact hFact.congr hCount hBuffer (hAll pc' (by simp [hPcs, hOther]))

theorem BatchFact.of_reachable {index : Nat} {Allowed : SlotView → SlotPc → Env → Prop}
    (hFact : BatchFact Fact)
    (h : Reachable SlotStep (SlotAction.Meets Allowed) (SlotView.start index) v) :
    ∀ pc ∈ v.pcs, Fact v.slot.session pc := by
  apply h.invariant
  · intro pc hMem
    simp [SlotView.start] at hMem
  · intro v v' a hReached hAll _ hStep
    exact hFact.kept hStep (SlotView.locked_of_reachable hReached)
      (SlotView.sound_of_reachable hReached) hAll

theorem batchFact_knows : BatchFact fun session pc => pc.knows session where
  free := SlotPc.knows_of_not_owns
  starts {session pc} hStarts := by
    unfold SlotPc.starts at hStarts
    split at hStarts
    · trivial
    · trivial
    · trivial
    · cases hStarts
  step := SlotPc.step_knows
  congr {session session' pc} hCount hBuffer hKnows := by
    unfold SlotPc.knows at hKnows ⊢
    rwa [hCount, hBuffer]

theorem SlotView.knows_of_reachable {index : Nat} {Allowed : SlotView → SlotPc → Env → Prop}
    (h : Reachable SlotStep (SlotAction.Meets Allowed) (SlotView.start index) v) :
    ∀ pc ∈ v.pcs, pc.knows v.slot.session :=
  batchFact_knows.of_reachable h

end Alone

end NfNetwork.Net
