import NfNetwork.Lan.ServerSteps

/-! The IO count of a LAN session: every overlapped operation and every thread that will still
decrement is counted, until an `Init` overwrites the count. -/
namespace NfNetwork.Lan

open Machinery

variable {ioThreads callers poolSize : Nat} {slot : Slot} {env : Env} {e : Effect}

/-- The references that a thread at this place will give back, or hand to the kernel. -/
def SlotPc.holds : SlotPc → Nat
  | .decrement | .completed _ _ => 1
  | .sendPost .readSocket | .sendPost .wsaSend | .recvPost .readSocket | .recvPost .wsaRecv => 1
  | _ => 0

/-- `IOCountAtomic` moved with the references. -/
def Effect.Balances (slot : Slot) (held : Nat) (e : Effect) : Prop :=
  e.slot.session.ioCount + (slot.pending.length + held : Nat) =
    slot.session.ioCount + (e.slot.pending.length + (e.next.map SlotPc.holds).sum : Nat)

theorem SendPostPc.step_balances {pc : SendPostPc} (h : pc.step slot env = some e) :
    e.Balances slot (SlotPc.holds (.sendPost pc)) := by
  cases pc
  case increment =>
    cases h
    simp [Effect.Balances, SlotPc.holds]
    omega
  case wsaSend =>
    cases env <;> cases h <;> simp [Effect.Balances, SlotPc.holds, Slot.post]
  all_goals simp only [SendPostPc.step, goto, update] at h
  all_goals repeat' split at h
  all_goals cases h
  all_goals simp [Effect.Balances, SlotPc.holds]

theorem RecvPostPc.step_balances {pc : RecvPostPc} (h : pc.step slot env = some e) :
    e.Balances slot (SlotPc.holds (.recvPost pc)) := by
  cases pc with
  | increment =>
      cases h
      simp [Effect.Balances, SlotPc.holds]
      omega
  | readSocket =>
      cases h
      cases slot.session.hasSocket <;> simp [Effect.Balances, SlotPc.holds]
  | wsaRecv => cases env <;> cases h <;> simp [Effect.Balances, SlotPc.holds, Slot.post]

/-- `IOCountAtomic` moves with the references if `Init` finds none. -/
theorem SlotPc.step_balances {pc : SlotPc} (h : pc.step slot env = some e)
    (hReset : pc = .init .resetIoCount → slot.session.ioCount = 0) : e.Balances slot pc.holds := by
  cases pc
  case sendPost pc => exact pc.step_balances h
  case recvPost pc => exact pc.step_balances h
  case init pc =>
    cases pc
    case resetIoCount =>
      cases h
      simp [Effect.Balances, holds, hReset]
    all_goals cases h
    all_goals rfl
  case finishSending pc =>
    cases pc <;> simp only [step, FinishPc.step, goto, update] at h
    all_goals repeat' split at h
    all_goals cases h
    all_goals simp [Effect.Balances, SlotPc.holds]
  case completed kind outcome =>
    cases outcome <;> simp only [step, goto] at h
    all_goals repeat' split at h
    all_goals cases h
    all_goals simp [Effect.Balances, SlotPc.holds]
  all_goals simp only [step, goto, update] at h
  all_goals repeat' split at h
  all_goals cases h
  all_goals simp [Effect.Balances, holds, releaseSteps]
  all_goals omega

theorem holds_entry (purpose : Purpose) (id : Nat) : (purpose.entry id).holds = 0 := by
  cases purpose <;> rfl

theorem holds_of_mem_initSteps {id : Nat} {pc : SlotPc} (h : pc ∈ initSteps id) : pc.holds = 0 := by
  revert pc
  simp [initSteps, SlotPc.holds]

namespace Server

variable {s s' : Server ioThreads callers poolSize} {t : Thread ioThreads callers}

/-- The references to the session in slot `k` that the threads hold. -/
def held (s : Server ioThreads callers poolSize) (k : Fin poolSize) : Nat :=
  weight (Frame.weighs k SlotPc.holds) s.threads

/-- The count of every slot is what is pending and what the threads hold. -/
def Counted (s : Server ioThreads callers poolSize) : Prop :=
  ∀ k, (s.slots k).session.ioCount = ((s.slots k).pending.length + s.held k : Nat)

/-- `Init` finds no references where it overwrites the count. -/
def OverwritesNone (s : Server ioThreads callers poolSize)
    (a : Thread ioThreads callers × Choice poolSize) : Prop :=
  ∀ k rest, s.threads a.1 = .on k (.init .resetIoCount) :: rest → (s.slots k).session.ioCount = 0

/-- The count stays exact where count, pending operations and frames move together. -/
theorem Counted.balanced (h : s.Counted) (top next : List (Frame poolSize))
    {rest : List (Frame poolSize)} (hTop : s.threads t = top ++ rest)
    (hThreads : s'.threads = Function.update s.threads t (next ++ rest))
    (hBalance : ∀ k, (s'.slots k).session.ioCount +
        ((s.slots k).pending.length + (top.map (Frame.weighs k SlotPc.holds)).sum : Nat) =
      (s.slots k).session.ioCount +
        ((s'.slots k).pending.length + (next.map (Frame.weighs k SlotPc.holds)).sum : Nat)) :
    s'.Counted := by
  intro k
  have hHeld := weight_update (Frame.weighs k SlotPc.holds) hTop next
  rw [← hThreads] at hHeld
  have hCount := h k
  have hMoved := hBalance k
  simp only [held] at *
  omega

theorem Counted.quiet (h : s.Counted) (top next : List (Frame poolSize))
    {rest : List (Frame poolSize)} (hTop : s.threads t = top ++ rest)
    (hThreads : s'.threads = Function.update s.threads t (next ++ rest)) (hSlots : s'.slots = s.slots)
    (hNone : ∀ k, ∀ f ∈ top ++ next, f.weighs k SlotPc.holds = 0) : s'.Counted := by
  apply h.balanced top next hTop hThreads
  intro k
  rw [hSlots, sum_map_zero fun f hf => hNone k f (List.mem_append_left _ hf),
    sum_map_zero fun f hf => hNone k f (List.mem_append_right _ hf)]

/-- A completion turns a pending operation into a thread's reference. -/
theorem Counted.complete {k : Fin poolSize} {op : OpKind × Nat} {outcome : Outcome} (h : s.Counted)
    (hIdle : s.threads t = []) (hMem : op ∈ (s.slots k).pending) :
    Counted { s.setThread t [.on k (.completed op.1 outcome)] with
      slots := Function.update s.slots k
        { s.slots k with pending := (s.slots k).pending.erase op } } := by
  refine h.balanced [] [.on k (.completed op.1 outcome)] hIdle rfl ?_
  intro k'
  by_cases hk : k' = k
  · subst hk
    have hPos := List.length_pos_of_mem hMem
    simp [Frame.weighs, SlotPc.holds, List.length_erase_of_mem hMem]
    omega
  · simp [Frame.weighs, hk, Ne.symm hk]

theorem Counted.ran {k : Fin poolSize} {pc : SlotPc} {rest : List (Frame poolSize)} {env : Env}
    {e : Effect} (h : s.Counted) (hTop : s.threads t = .on k pc :: rest)
    (hStep : pc.step (s.slots k) env = some e)
    (hReset : pc = .init .resetIoCount → (s.slots k).session.ioCount = 0) :
    (s.apply t rest k e).Counted := by
  refine h.balanced [.on k pc] (effectFrames k e) hTop rfl ?_
  intro k'
  rw [sum_weighs_effectFrames]
  by_cases hk : k' = k
  · subst hk
    simpa [apply, Frame.weighs, Effect.Balances] using SlotPc.step_balances hStep hReset
  · simp [apply, Frame.weighs, hk, Ne.symm hk]

theorem Counted.step (h : s.Counted) (hStep : s.Advance t s')
    (hGuard : ∀ k rest, s.threads t = .on k (.init .resetIoCount) :: rest →
      (s.slots k).session.ioCount = 0) : s'.Counted := by
  cases hStep with
  | plain top next hTop hPlain =>
      exact h.quiet top next hTop rfl rfl fun k f hf => Frame.weighs_of_plain (hPlain f hf)
  | @called id purpose hIndex =>
      refine h.quiet [] [.on _ (purpose.entry id)] rfl rfl rfl fun k f hf => ?_
      obtain rfl := List.mem_singleton.mp hf
      simp [Frame.weighs, holds_entry]
  | completed hIdle hMem => exact h.complete hIdle hMem
  | popped hTop => exact h.quiet [.tryPop] [.nextUid _] hTop rfl rfl (by simp [Frame.weighs])
  | counted hTop => exact h.quiet [.nextUid _] [.checkUid _ _] hTop rfl rfl (by simp [Frame.weighs])
  | refused hTop => exact h.quiet [.checkUid _ _] [.nextUid _] hTop rfl rfl (by simp [Frame.weighs])
  | @chosen index uid rest hTop hIndex =>
      refine h.quiet [.checkUid index uid] _ hTop rfl rfl fun k f hf => ?_
      rcases List.mem_append.mp hf with hOld | hNew
      · obtain rfl := List.mem_singleton.mp hOld
        rfl
      · obtain ⟨pc, hMem, rfl⟩ := List.mem_map.mp hNew
        simp [Frame.weighs, holds_of_mem_initSteps hMem]
  | ran hTop hStep => exact h.ran hTop hStep fun hReset => hGuard _ _ (hReset ▸ hTop)

/-- The count covers the pending operations of the current incarnation, a session that has any
is not released, and no decrement makes the count negative. -/
structure CountsPending (s : Server ioThreads callers poolSize) : Prop where
  covers : ∀ k, ((s.slots k).pendingNow : Int) ≤ (s.slots k).session.ioCount
  keeps : ∀ k, 0 < (s.slots k).pendingNow → (s.slots k).session.releasable = false
  decrements : ∀ k t rest, s.threads t = .on k .decrement :: rest →
    0 ≤ (s.slots k).session.ioCount - 1

theorem Counted.countsPending (h : s.Counted) : s.CountsPending := by
  have hCovers : ∀ k, ((s.slots k).pendingNow : Int) ≤ (s.slots k).session.ioCount := by
    intro k
    have hLe : (s.slots k).pendingNow ≤ (s.slots k).pending.length := List.countP_le_length
    rw [h k]
    omega
  refine ⟨hCovers, ?_, ?_⟩
  · intro k hPending
    have hNonzero : (s.slots k).session.ioCount ≠ 0 := by
      have hCover := hCovers k
      omega
    simp [LanSession.releasable, hNonzero]
  · intro k t rest hTop
    have hHolds : Frame.weighs k SlotPc.holds (.on k .decrement) ≤ s.held k :=
      le_weight (t := t) (by simp [hTop])
    simp only [Frame.weighs, if_true, SlotPc.holds] at hHolds
    rw [h k]
    omega

theorem counted_of_overwritesNone (h : Reached OverwritesNone s) : s.Counted := by
  apply h.invariant
  · intro k
    simp [start, held, weight_nil, LanSession.new]
  · intro s s' a _ hCounted hGuard hStep
    exact hCounted.step (step_advance hStep) hGuard

/-- The count covers what is pending in every run in which no `Init` overwrites a reference. -/
theorem countsPending_of_overwritesNone (h : Reached OverwritesNone s) : s.CountsPending :=
  (counted_of_overwritesNone h).countsPending

/-- A test for the guard on a pool of two. -/
def overwritesZero (s : Server 1 1 2) (a : Thread 1 1 × Choice 2) : Bool :=
  match s.threads a.1 with
  | .on k (.init .resetIoCount) :: _ => (s.slots k).session.ioCount == 0
  | _ => true

theorem overwritesNone_of_overwritesZero {s : Server 1 1 2} {a : Thread 1 1 × Choice 2}
    (h : overwritesZero s a = true) : OverwritesNone s a := by
  intro k rest hTop
  rw [overwritesZero, hTop] at h
  simpa using h

/-- A client of slot 1 connects and leaves. -/
def connectAndLeave : List (Thread 1 1 × Choice 2) :=
  goes .accept 21 ++ (.io 0, .completion 1 (.recv, 1) (.succeeded 0)) :: goes (.io 0) 17

/-- A second client takes the slot, and a call comes with the first client's id. -/
theorem countsPending_of_overwritesNone_reused :
    ∃ s : Server 1 1 2, (s.slots 1).incarnation = 2 ∧ (s.slots 1).pendingNow = 1 ∧
      s.CountsPending := by
  have hRun : (exec (checked overwritesZero step) (start 1 1 2)
      (connectAndLeave ++ goes .accept 21 ++ [(.caller 0, .call (2 ^ 48 + 1) (.sendPacket 7))])).map
        (fun s => decide ((s.slots 1).incarnation = 2 ∧ (s.slots 1).pendingNow = 1)) = some true := by
    decide +kernel
  obtain ⟨s, hExec, hCounts⟩ := Option.map_eq_some_iff.mp hRun
  obtain ⟨hIncarnation, hPending⟩ := of_decide_eq_true hCounts
  exact ⟨s, hIncarnation, hPending,
    countsPending_of_overwritesNone (reachable_of_checked overwritesNone_of_overwritesZero hExec)⟩

/-- A caller of `SendPacket` passes the two checks, its session is released, it counts, the next
client's `Init` overwrites its count, and it takes the next client's count away. -/
def staleSenderRun : List (Thread 1 1 × Choice 2) :=
  goes .accept 21 ++ (.caller 0, .call (2 ^ 48 + 1) (.sendPacket 7)) :: goes (.caller 0) 2 ++
    (.io 0, .completion 1 (.recv, 1) (.succeeded 0)) :: goes (.io 0) 17 ++
    goes (.caller 0) 1 ++ goes .accept 21 ++ goes (.caller 0) 1

theorem countsPending_fails :
    ¬ ∀ s : Server 1 1 2, Reached (fun _ _ => True) s → s.CountsPending := by
  intro h
  have hRun : (exec step (start 1 1 2) staleSenderRun).map
      (fun s => decide ((s.slots 1).pendingNow = 1 ∧ (s.slots 1).session.ioCount = 0)) =
        some true := by
    decide +kernel
  obtain ⟨s, hExec, hBad⟩ := Option.map_eq_some_iff.mp hRun
  obtain ⟨hPending, hCount⟩ := of_decide_eq_true hBad
  have hCovers := (h s (reachable_of_exec hExec)).covers 1
  rw [hPending, hCount] at hCovers
  exact absurd hCovers (by decide)

end Server

end NfNetwork.Lan
