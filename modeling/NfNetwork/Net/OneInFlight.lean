import NfNetwork.Net.References

/-! One send and one receive at a time. In every run the sending flag is a lock on the send and on its
batch, which stays as it was handed out until `FinishSending`. Of receives there is one
as long as no `WSARecv` succeeds on a session that has been released: then whoever receives on a session,
or is about to for the first time, is alone, and nobody does when the accept thread pops it. -/
namespace NfNetwork.Net

open Machinery

/-- At work on a receive that has completed, up to the next one. -/
def SlotPc.receives : SlotPc → Nat
  | .completed .recv _ | .checkClosed .recv | .recvLoop | .receivedReadId | .received _
  | .recvPost .ioThread _ => 1
  | _ => 0

/-- Between the pop and the first receive. -/
def SlotPc.awaits : SlotPc → Nat
  | .init _ | .countConnected | .bind | .connectedReadId | .connected _
  | .recvPost .acceptThread _ => 1
  | _ => 0

section Steps

variable {slot : Slot} {env : Env} {pc : SlotPc} {e : Effect}

/-- What a step leaves of a receive is what it found. -/
structure Receives (slot : Slot) (env : Env) (pc : SlotPc) (e : Effect) : Prop where
  awaits : (e.next.map SlotPc.awaits).sum ≤ pc.awaits
  total : e.slot.pendingRecv + (e.next.map SlotPc.receives).sum + (e.next.map SlotPc.awaits).sum ≤
    slot.pendingRecv + pc.receives + pc.awaits
  taken : e.slot.pendingRecv + (e.next.map SlotPc.receives).sum ≤ slot.pendingRecv + pc.receives ∨
    ∃ caller, pc = .recvPost caller .wsaRecv ∧ env = .ok

attribute [local simp] SlotPc.receives SlotPc.awaits

/-- `RecvPost` posts one receive, and only from the place that may. -/
theorem RecvPostPc.step_receives {caller : RecvCaller} {pc : RecvPostPc}
    (h : pc.step slot env caller = some e) : Receives slot env (.recvPost caller pc) e := by
  cases pc
  case wsaRecv =>
    cases env <;> cases caller <;> cases h
    all_goals constructor
    all_goals simp [RecvCaller.returned]
  all_goals simp only [RecvPostPc.step, goto, update] at h
  all_goals repeat' split at h
  all_goals cases h
  all_goals cases caller
  all_goals constructor
  all_goals simp [RecvCaller.returned]

/-- No other step posts one. -/
theorem SlotPc.step_receives (h : pc.step slot env = some e) : Receives slot env pc e := by
  cases pc
  case recvPost caller pc => exact RecvPostPc.step_receives h
  case sendPost caller pc =>
    cases pc <;> simp only [SlotPc.step, SendPostPc.step, goto, update] at h
    all_goals repeat' split at h
    all_goals cases h
    all_goals constructor
    all_goals simp
  case release id pc =>
    cases pc <;> simp only [SlotPc.step, ReleasePc.step, goto, update] at h
    all_goals repeat' split at h
    all_goals cases h
    all_goals cases id
    all_goals constructor
    all_goals simp
  case finishSending caller pc =>
    cases caller <;> cases pc <;> simp only [SlotPc.step, FinishPc.step, goto, update] at h
    all_goals repeat' split at h
    all_goals cases h
    all_goals constructor
    all_goals simp
  case init pc =>
    cases pc <;> simp only [SlotPc.step, InitPc.step, goto, update] at h
    all_goals repeat' split at h
    all_goals cases h
    all_goals constructor
    all_goals simp
  case acquireCheckReleased id purpose =>
    cases purpose <;> cases h
    all_goals constructor
    all_goals split <;> simp [Purpose.acquired]
  case completed kind outcome =>
    cases kind <;> cases outcome <;> cases h
    all_goals constructor
    all_goals repeat' split
    all_goals simp
  case checkClosed kind =>
    cases kind <;> cases h
    all_goals constructor
    all_goals split <;> simp
  case recvLoop | bind =>
    cases env <;> cases h
    all_goals constructor
    all_goals simp
  all_goals simp only [SlotPc.step, goto, update] at h
  all_goals repeat' split at h
  all_goals cases h
  all_goals constructor
  all_goals simp

/-- Waiting for a first receive is the accept thread's business. -/
theorem SlotPc.acceptMeasure_awaits : SlotPc.AcceptMeasure SlotPc.awaits where
  find _ _ := rfl
  completed _ _ := rfl
  popped := rfl
  step h := (SlotPc.step_receives h).awaits

/-- Whoever receives holds a count. -/
theorem SlotPc.receives_le_holds (pc : SlotPc) : pc.receives ≤ (pc.acts.map Act.holds).sum := by
  cases pc
  case recvPost caller pc =>
    cases caller <;> cases h : pc.armed <;> simp [acts, h, Act.holds]
  case completed kind outcome => cases kind <;> simp [acts, Act.holds]
  case checkClosed kind => cases kind <;> simp [acts, Act.holds]
  all_goals simp [acts, Act.holds]

/-- A session that is released was, or `TryRelease` has just won. -/
theorem SlotPc.step_isReleased (h : pc.step slot env = some e)
    (hReleased : e.slot.session.isReleased = true) :
    slot.session.isReleased = true ∨ ∃ id, pc = .tryRelease id ∧ slot.session.ioCount = 0 := by
  cases pc
  case tryRelease id =>
    simp only [SlotPc.step, goto] at h
    split at h
    · rename_i hWins
      exact .inr ⟨id, rfl, hWins.2⟩
    · cases h
      exact .inl hReleased
  all_goals left
  case sendPost caller pc =>
    cases pc <;> simp only [SlotPc.step, SendPostPc.step, goto, update] at h
    all_goals repeat' split at h
    all_goals cases h
    all_goals simpa using hReleased
  case recvPost caller pc =>
    cases pc <;> simp only [SlotPc.step, RecvPostPc.step, goto, update] at h
    all_goals repeat' split at h
    all_goals cases h
    all_goals exact hReleased
  case release id pc =>
    cases pc <;> simp only [SlotPc.step, ReleasePc.step, goto, update] at h
    all_goals repeat' split at h
    all_goals cases h
    all_goals exact hReleased
  case finishSending caller pc =>
    cases pc <;> simp only [SlotPc.step, FinishPc.step, goto, update] at h
    all_goals repeat' split at h
    all_goals cases h
    all_goals simpa using hReleased
  case init pc =>
    cases pc <;> simp only [SlotPc.step, InitPc.step, goto, update] at h
    all_goals repeat' split at h
    all_goals cases h
    all_goals first | exact hReleased | cases hReleased
  case completed kind outcome => cases outcome <;> cases h <;> exact hReleased
  all_goals simp only [SlotPc.step, goto, update] at h
  all_goals repeat' split at h
  all_goals cases h
  all_goals exact hReleased

/-- The `SendingBuffer` that a thread fills, or has handed out, is the batch. -/
def SlotPc.outBuffer (session : NetSession) : SlotPc → Prop
  | .sendPost _ (.dequeue _ _ batch) | .sendPost _ (.store _ _ batch _) | .sendPost _ (.checkCount batch)
  | .sendPost _ (.markPosted batch) | .sendPost _ (.increment batch)
  | .sendPost _ (.resetOverlapped batch) | .sendPost _ (.socketClosed batch)
  | .sendPost _ (.readSocket batch) | .sendPost _ (.wsaSend batch) => session.batch = batch
  | .sendPost _ (.count _ _ batch packet) =>
      session.batch = batch ∧ session.packetBuffer session.packetCount = packet
  | _ => True

/-- The buffer that `ReadySending` hands out is the batch that the session keeps. -/
theorem SendPostPc.step_outBuffer {caller : SendCaller} {pc : SendPostPc}
    (h : pc.step slot env caller = some e) (hOut : (SlotPc.sendPost caller pc).outBuffer slot.session) :
    ∀ pc' ∈ e.next, pc'.outBuffer e.slot.session := by
  intro pc' hMem
  cases pc
  case count queueSize i batch packet =>
    cases h
    cases List.mem_singleton.mp hMem
    obtain ⟨hBatch, hStored⟩ := hOut
    subst hBatch hStored
    simp [SlotPc.outBuffer, NetSession.batch, List.range_succ]
  case store queueSize i batch packet =>
    cases h
    cases List.mem_singleton.mp hMem
    simpa [SlotPc.outBuffer, NetSession.batch, map_range_store] using hOut
  all_goals simp only [SendPostPc.step, goto, update] at h
  all_goals repeat' split at h
  all_goals cases h
  all_goals simp at hMem
  all_goals try rcases hMem with rfl | rfl
  all_goals simp_all [SlotPc.outBuffer, NetSession.batch]

/-- Outside `SendPost` there is no such buffer. -/
theorem SlotPc.outBuffer_of_not_inside {session : NetSession} (h : pc.isInside = false) :
    pc.outBuffer session := by
  cases pc
  case sendPost caller pc =>
    cases pc
    case readySending => trivial
    all_goals cases h
  all_goals trivial

/-- Each step of the sending thread keeps the two equal. -/
theorem SlotPc.step_outBuffer (h : pc.step slot env = some e) (hOut : pc.outBuffer slot.session) :
    ∀ pc' ∈ e.next, pc'.outBuffer e.slot.session := by
  intro pc' hMem
  cases pc
  case sendPost caller pc => exact SendPostPc.step_outBuffer h hOut pc' hMem
  case finishSending caller pc =>
    cases caller <;> cases pc <;> simp only [SlotPc.step, FinishPc.step, goto, update] at h
    all_goals repeat' split at h
    all_goals cases h
    all_goals cases List.mem_singleton.mp hMem
    all_goals trivial
  all_goals exact outBuffer_of_not_inside (step_isInside h (by simp) (by simp) pc' hMem)

/-- It is a fact about the batch, so other threads leave it alone. -/
theorem batchFact_outBuffer : BatchFact SlotPc.outBuffer where
  free {session pc} hFree := by
    cases pc
    case sendPost caller pc =>
      cases pc
      case readySending => trivial
      all_goals cases hFree
    all_goals trivial
  starts {session pc} hStarts := by
    cases pc
    case sendPost => cases hStarts
    all_goals trivial
  step := SlotPc.step_outBuffer
  congr {session session' pc} hCount hBuffer hOut := by
    have hBatch : session'.batch = session.batch := by
      rw [NetSession.batch, NetSession.batch, hCount, hBuffer]
    unfold SlotPc.outBuffer at hOut ⊢
    rwa [hBatch, hCount, hBuffer]

/-- What a step of a thread that does not fill, finish or initialise does to a batch: nothing. What it
frees it takes out of the queue. -/
structure KeepsBatch (slot : Slot) (e : Effect) : Prop where
  packetCount : e.slot.session.packetCount = slot.session.packetCount
  packetBuffer : e.slot.session.packetBuffer = slot.session.packetBuffer
  drops : ∀ r ∈ e.refs, r.2 < 0 → slot.session.sendQueue = r.1 :: e.slot.session.sendQueue

/-- A step that frees nothing. -/
theorem KeepsBatch.of_refs_nil (hCount : e.slot.session.packetCount = slot.session.packetCount)
    (hBuffer : e.slot.session.packetBuffer = slot.session.packetBuffer) (hRefs : e.refs = []) :
    KeepsBatch slot e := by
  refine ⟨hCount, hBuffer, ?_⟩
  intro r hMem
  rw [hRefs] at hMem
  cases hMem

/-- The places whose step changes the batch or frees what is in it. -/
def SlotPc.changesBatch : SlotPc → Bool
  | .sendPost _ (.resetCount _) | .sendPost _ (.store _ _ _ _) | .sendPost _ (.count _ _ _ _)
  | .finishSending _ _ | .init .resetCount => true
  | _ => false

/-- Only the places named change a batch. -/
theorem SlotPc.step_keepsBatch (h : pc.step slot env = some e) (hKeeps : pc.changesBatch = false) :
    KeepsBatch slot e := by
  cases pc
  case sendPost caller pc =>
    cases pc
    case resetCount | store | count => cases hKeeps
    all_goals simp only [SlotPc.step, SendPostPc.step, goto, update] at h
    all_goals repeat' split at h
    all_goals cases h
    all_goals constructor
    all_goals simp
  case recvPost caller pc =>
    cases pc <;> simp only [SlotPc.step, RecvPostPc.step, goto, update] at h
    all_goals repeat' split at h
    all_goals cases h
    all_goals exact .of_refs_nil rfl rfl rfl
  case release id pc =>
    cases pc
    case drainDequeue =>
      simp only [SlotPc.step, ReleasePc.step, goto] at h
      split at h <;> cases h
      · exact .of_refs_nil rfl rfl rfl
      · rename_i packet sendQueue hQueue
        refine ⟨rfl, rfl, ?_⟩
        intro r hMem _
        cases List.mem_singleton.mp hMem
        exact hQueue
    all_goals simp only [SlotPc.step, ReleasePc.step, goto, update] at h
    all_goals repeat' split at h
    all_goals cases h
    all_goals exact .of_refs_nil rfl rfl rfl
  case finishSending => cases hKeeps
  case init pc =>
    cases pc
    case resetCount => cases hKeeps
    all_goals simp only [SlotPc.step, InitPc.step, goto, update] at h
    all_goals repeat' split at h
    all_goals cases h
    all_goals exact .of_refs_nil rfl rfl rfl
  case addRef id packet =>
    cases h
    refine ⟨rfl, rfl, ?_⟩
    intro r hMem hNegative
    cases List.mem_singleton.mp hMem
    cases hNegative
  case completed kind outcome => cases outcome <;> cases h <;> exact .of_refs_nil rfl rfl rfl
  all_goals simp only [SlotPc.step, goto, update] at h
  all_goals repeat' split at h
  all_goals cases h
  all_goals exact .of_refs_nil rfl rfl rfl

end Steps

section View

variable {v v' : SlotView} {a : SlotAction}

/-- Whoever receives on a session, or is about to for the first time, is alone. -/
structure SlotView.RecvAlone (v : SlotView) : Prop where
  one : v.slot.pendingRecv + (v.pcs.map SlotPc.receives).sum + (v.pcs.map SlotPc.awaits).sum ≤ 1
  rest : v.slot.session.isReleased = true →
    v.slot.pendingRecv + (v.pcs.map SlotPc.receives).sum = 0

/-- No `WSARecv` succeeds on a released session. -/
def SlotView.RecvsLive (v : SlotView) (pc : SlotPc) (env : Env) : Prop :=
  ∀ caller, pc = .recvPost caller .wsaRecv → env = .ok → v.slot.session.isReleased = false

/-- A posted receive holds a reference. -/
theorem SlotView.sum_receives_le (v : SlotView) :
    (v.pcs.map SlotPc.receives).sum ≤ v.life.total Act.holds := by
  rw [v.total_eq fun _ => rfl]
  exact Multiset.sum_map_le_sum_map _ _ fun pc _ => pc.receives_le_holds

/-- One receive is out or about to be, and it stays one if every `WSARecv` is posted on a live
session. -/
theorem SlotView.RecvAlone.step (hAlone : v.RecvAlone) (hSound : v.life.Sound)
    (hMeets : SlotAction.Meets SlotView.RecvsLive v a)
    (hPop : a = .pop → (v.pcs.map SlotPc.awaits).sum = 0) (h : SlotStep v a v') : v'.RecvAlone := by
  have hOne := hAlone.one
  have hRest := hAlone.rest
  cases h with
  | stay => exact hAlone
  | find =>
      constructor
      · simpa [SlotPc.receives, SlotPc.awaits] using hOne
      · simpa [SlotPc.receives] using hRest
  | pop hUnused hAccepts =>
      have hReleased : v.slot.session.isReleased = true := by
        by_contra hLive
        have hPlace := hSound.place
        have hOut : v.life.core.live = 1 := if_neg hLive
        have hIn : v.life.core.unused = v.unused := rfl
        omega
      have hNone := hPop rfl
      have hQuiet := hRest hReleased
      constructor
      · simp [SlotPc.receives, SlotPc.awaits] at hNone hQuiet ⊢
        omega
      · simpa [SlotPc.receives] using hRest
  | complete hTake =>
      rename_i kind outcome slot
      have hSession := Slot.takeCompletion_session hTake
      have hCount : slot.pendingRecv + (SlotPc.completed kind outcome).receives = v.slot.pendingRecv := by
        cases kind <;> simp only [Slot.takeCompletion] at hTake <;> split at hTake <;> cases hTake
        · rename_i hPending
          exact Nat.sub_add_cancel hPending
        · rfl
      constructor
      · simp [SlotPc.awaits]
        omega
      · intro hReleased
        rw [hSession] at hReleased
        have hQuiet := hRest hReleased
        simp only [Multiset.map_cons, Multiset.sum_cons]
        omega
  | run hPcs hStep =>
      rename_i pc env e others
      obtain ⟨_, hTotal, hTaken⟩ := SlotPc.step_receives hStep
      have hHolds := v.sum_receives_le
      have hCounted := hSound.counted
      rw [hPcs, Multiset.map_cons, Multiset.sum_cons] at hRest hHolds
      rw [hPcs, Multiset.map_cons, Multiset.sum_cons, Multiset.map_cons, Multiset.sum_cons] at hOne
      have hSum : ∀ f : SlotPc → Nat,
          ((e.next + others : Multiset SlotPc).map f).sum = (e.next.map f).sum + (others.map f).sum := by
        intro f
        rw [Multiset.map_add, Multiset.sum_add, Multiset.map_coe, Multiset.sum_coe]
      constructor
      · dsimp only
        rw [hSum, hSum]
        omega
      · intro hReleased
        dsimp only
        rw [hSum]
        have hBefore : v.slot.pendingRecv + (pc.receives + (others.map SlotPc.receives).sum) = 0 := by
          rcases SlotPc.step_isReleased hStep hReleased with hWas | ⟨id, _, hZero⟩
          · exact hRest hWas
          · have hPending : v.life.core.pending = v.slot.pendingRecv + v.slot.pendingSend := rfl
            have hIo : v.life.core.ioCount = v.slot.session.ioCount := rfl
            omega
        rcases hTaken with hTaken | ⟨caller, hPc, hOk⟩
        · omega
        · have hLive := hMeets caller hPc hOk
          subst hPc
          rcases SlotPc.step_isReleased hStep hReleased with hWas | ⟨id, hPc, _⟩
          · rw [hLive] at hWas
            cases hWas
          · cases hPc

/-- In every run at most one send is in flight. -/
theorem SlotView.pendingSend_le_one (hLocked : v.sending.Locked) : v.slot.pendingSend ≤ 1 := by
  have hPending : v.sending.core.pending = v.slot.pendingSend := rfl
  cases hReleased : v.sending.core.released with
  | true =>
      obtain ⟨hNone, _⟩ := hLocked.idle hReleased
      omega
  | false =>
      have hFlag := hLocked.flag hReleased
      unfold Sending.Flagged at hFlag
      omega

/-- At a flag of 2 only `FinishSending` changes the batch. -/
theorem SlotView.changesBatch_eq_false {pc : SlotPc} (hLocked : v.sending.Locked)
    (hSound : v.life.Sound) (hFlag : v.slot.session.isSending = 2) (hMem : pc ∈ v.pcs)
    (hFinish : ∀ caller pc', pc ≠ .finishSending caller pc') : pc.changesBatch = false := by
  have hExcludes := SlotView.excludes hSound
  have hSending : v.sending.core.isSending = 2 := hFlag
  have hReadies : ∀ {act}, act ∈ pc.sendActs → act.readies = 1 → act.uses = 1 → False := by
    intro act hAct hReadies hUses
    have hIn : act ∈ v.sending.acts := SlotView.mem_sending_acts.mpr ⟨pc, hMem, hAct⟩
    have hLocks := hLocked.flag (hExcludes.live_of_uses hIn hUses)
    have hLe : act.readies ≤ v.sending.total SendAct.readies := le_total_of_mem hIn
    unfold Sending.Flagged at hLocks
    omega
  cases pc
  case sendPost caller pc =>
    cases pc
    case resetCount | store | count =>
      exact (hReadies (List.mem_singleton_self _) rfl rfl).elim
    all_goals rfl
  case finishSending caller pc => exact absurd rfl (hFinish caller pc)
  case init pc =>
    cases pc
    case resetCount =>
      have hIn : .inits true ∈ v.sending.acts :=
        SlotView.mem_sending_acts.mpr ⟨_, hMem, List.mem_singleton_self _⟩
      obtain ⟨_, _, _, hIdle⟩ := hLocked.rest_of_inits hExcludes hIn
      omega
    all_goals rfl
  all_goals rfl

end View

namespace Server

variable {ioThreads callers poolSize : Nat} {s s' : Server ioThreads callers poolSize}
  {t : Thread ioThreads callers} {choice : Choice poolSize} {k : Fin poolSize}
  {Guard : Server ioThreads callers poolSize → Thread ioThreads callers × Choice poolSize → Prop}

/-- `WSASend` was handed the batch, or failed, and `FinishSending` has not begun. -/
structure BatchOut (s : Server ioThreads callers poolSize) (k : Fin poolSize) : Prop where
  sending : (s.slots k).session.isSending = 2
  unfinished : ∀ t caller pc, .on k (.finishSending caller pc) ∉ s.threads t

/-- Of each kind one operation is in flight; an `OVERLAPPED` is reset while none is; a batch that is
out stays as it was handed to `WSASend`, and so do its references. -/
structure OneInFlight (s : Server ioThreads callers poolSize) : Prop where
  send : ∀ k, (s.slots k).pendingSend ≤ 1
  recv : ∀ k, (s.slots k).pendingRecv ≤ 1
  resetSend : ∀ k t caller batch, .on k (.sendPost caller (.resetOverlapped batch)) ∈ s.threads t →
    (s.slots k).pendingSend = 0
  resetRecv : ∀ k t caller, .on k (.recvPost caller .resetOverlapped) ∈ s.threads t →
    (s.slots k).pendingRecv = 0
  handed : ∀ k t caller batch, .on k (.sendPost caller (.wsaSend batch)) ∈ s.threads t →
    batch = (s.slots k).session.batch
  stays : ∀ k, s.BatchOut k → ∀ a s', s.step a = some s' →
    (s'.slots k).session.packetCount = (s.slots k).session.packetCount ∧
      (s'.slots k).session.packetBuffer = (s.slots k).session.packetBuffer
  held : ∀ k, s.BatchOut k → ∀ packet,
    ((s.slots k).session.batch.count packet : Int) ≤ s.refCount packet
  drops : ∀ k, s.BatchOut k → ∀ t env pc rest e, s.threads t = .on k pc :: rest →
    pc.step (s.slots k) env = some e → ∀ r ∈ e.refs, r.2 < 0 →
      (s.slots k).session.sendQueue = r.1 :: e.slot.session.sendQueue

/-- Of a step at a session: no `WSARecv` succeeds on a session that has been released. -/
def RecvsLive (s : Server ioThreads callers poolSize)
    (a : Thread ioThreads callers × Choice poolSize) : Prop :=
  ∀ k caller rest, s.threads a.1 = .on k (.recvPost caller .wsaRecv) :: rest → a.2 = .env .ok →
    (s.slots k).session.isReleased = false

/-- In every run what the accept thread alone carries stays with it. -/
theorem Reached.weighsAlone {f : SlotPc → Nat} (hMeasure : SlotPc.AcceptMeasure f)
    (h : Reached Guard s) : s.WeighsAlone f := by
  apply h.invariant
  · intro t
    exact Nat.zero_le _
  · intro s s' a _ hAlone _ hStep
    exact (step_advance hStep).weighsAlone hMeasure hAlone

/-- In every guarded run a session has one receive out at most. -/
theorem Reached.recvAlone (h : Reached RecvsLive s) : ∀ k, (s.view k).RecvAlone := by
  apply h.invariant
  · intro k
    rw [start_view]
    constructor <;> simp [SlotView.start]
  · rintro s s' ⟨t, choice⟩ hReached hAlone hGuard hStep k
    obtain ⟨b, hSlotStep, hRun, hPop⟩ :=
      (step_advance hStep).view (Reached.acceptsAlone hReached) k
    refine (hAlone k).step (Reached.sound k hReached) ?_ ?_ hSlotStep
    · cases b with
      | run pc env =>
          obtain ⟨rfl, rest, hTop⟩ := hRun pc env rfl
          rintro caller rfl rfl
          exact hGuard k caller rest hTop rfl
      | _ => trivial
    · intro hIs
      obtain ⟨rest, hTop⟩ := hPop hIs
      rw [view_eq k [.acceptPop] rest hTop]
      simp only [List.filterMap, Frame.pcAt, Multiset.coe_nil, zero_add]
      exact (Reached.weighsAlone SlotPc.acceptMeasure_awaits hReached).pcs_eq_zero hTop k

/-- The batch of a session and the references that it holds, in every run. -/
theorem BatchOut.held (hOut : s.BatchOut k) (h : Reached Guard s) (packet : Nat) :
    ((s.slots k).session.batch.count packet : Int) ≤ s.refCount packet := by
  have hFreed : ∀ pc ∈ (s.view k).pcs, pc.freed (s.slots k).session packet = 0 := by
    intro pc hMem
    obtain ⟨t, hFrame⟩ := mem_view_pcs.mp hMem
    cases pc
    case finishSending caller pc => exact absurd hFrame (hOut.unfinished t caller pc)
    all_goals rfl
  have hBound := (references_bounds h k packet).2 hFreed
  have hLe := references_le h k packet
  have hCount := refCount_eq_references h packet
  rw [NetSession.occurrences] at hBound
  omega

/-- While a send is out nobody is at a place that changes the batch. -/
theorem BatchOut.changesBatch (hOut : s.BatchOut k) (h : Reached Guard s) {pc : SlotPc}
    (hFrame : .on k pc ∈ s.threads t) : pc.changesBatch = false := by
  have hSlot := Reached.slot h k
  apply SlotView.changesBatch_eq_false (SlotView.locked_of_reachable hSlot)
    (SlotView.sound_of_reachable hSlot) hOut.sending (mem_view_pcs.mpr ⟨t, hFrame⟩)
  rintro caller pc' rfl
  exact hOut.unfinished t caller pc' hFrame

/-- So it stays what `WSASend` was given, until the completion. -/
theorem BatchOut.stays (hOut : s.BatchOut k) (h : Reached Guard s)
    {a : Thread ioThreads callers × Choice poolSize} (hStep : s.step a = some s') :
    (s'.slots k).session.packetCount = (s.slots k).session.packetCount ∧
      (s'.slots k).session.packetBuffer = (s.slots k).session.packetBuffer := by
  obtain ⟨t, choice⟩ := a
  rcases (step_advance hStep).runs_or_starts with
    ⟨env, rest, j, pc, e, _, hTop, hEffect, rfl⟩ | ⟨_, hSame⟩
  · by_cases hj : k = j
    · subst hj
      have hFrame : .on k pc ∈ s.threads t := by
        rw [hTop]
        exact List.mem_cons_self
      obtain ⟨hCount, hBuffer, _⟩ := SlotPc.step_keepsBatch hEffect (hOut.changesBatch h hFrame)
      simp only [apply, Function.update_self]
      exact ⟨hCount, hBuffer⟩
    · simp [apply, Function.update_of_ne hj]
  · rw [(hSame k).1]
    exact ⟨rfl, rfl⟩

/-- In the runs in which no `WSARecv` succeeds on a released session one send and one receive are in
flight. The parts about sends and batches hold in every run. -/
theorem oneInFlight (h : Reached RecvsLive s) : s.OneInFlight where
  send k := SlotView.pendingSend_le_one (SlotView.locked_of_reachable (Reached.slot h k))
  recv k := by
    have hOne := (Reached.recvAlone h k).one
    have hSlot : (s.view k).slot = s.slots k := rfl
    rw [hSlot] at hOne
    omega
  resetSend k t caller batch hFrame := by
    have hSlot := Reached.slot h k
    by_contra hPending
    have hFree := SlotView.not_owns_of_pending (SlotView.locked_of_reachable hSlot)
      (SlotView.sound_of_reachable hSlot) hPending (mem_view_pcs.mpr ⟨t, hFrame⟩)
    cases hFree
  resetRecv k t caller hFrame := by
    have hOne := (Reached.recvAlone h k).one
    have hMem := mem_view_pcs.mpr ⟨t, hFrame⟩
    have hReceives := le_sum_map (f := SlotPc.receives) hMem
    have hAwaits := le_sum_map (f := SlotPc.awaits) hMem
    have hSlot : (s.view k).slot = s.slots k := rfl
    rw [hSlot] at hOne
    cases caller with
    | acceptThread =>
        have hThis : (SlotPc.recvPost .acceptThread .resetOverlapped).awaits = 1 := rfl
        omega
    | ioThread =>
        have hThis : (SlotPc.recvPost .ioThread .resetOverlapped).receives = 1 := rfl
        omega
  handed k t caller batch hFrame :=
    (batchFact_outBuffer.of_reachable (Reached.slot h k) _ (mem_view_pcs.mpr ⟨t, hFrame⟩)).symm
  stays k hOut a s' hStep := hOut.stays h hStep
  held k hOut := hOut.held h
  drops k hOut t env pc rest e hTop hStep := by
    have hFrame : .on k pc ∈ s.threads t := by
      rw [hTop]
      exact List.mem_cons_self
    exact (SlotPc.step_keepsBatch hStep (hOut.changesBatch h hFrame)).drops

def recvsLive (s : Server ioThreads callers poolSize)
    (a : Thread ioThreads callers × Choice poolSize) : Bool :=
  match s.threads a.1, a.2 with
  | .on k (.recvPost _ .wsaRecv) :: _, .env .ok => !(s.slots k).session.isReleased
  | _, _ => true

/-- The test that runs evaluate implies the guard. -/
theorem recvsLive_of_test {a : Thread ioThreads callers × Choice poolSize}
    (h : s.recvsLive a = true) : s.RecvsLive a := by
  intro k caller rest hTop hOk
  rw [recvsLive, hTop, hOk] at h
  simpa using h

/-- A client is accepted and is sent a packet. -/
def acceptAndSend : List (Thread 1 2 × Choice 1) :=
  goes .accept 24 ++ (.caller 0, .call 1 (.sendPacket 7)) :: goes (.caller 0) 23

/-- A session with a receive and a send out. -/
theorem oneInFlight_acceptAndSend : ∃ s : Server 1 2 1, (s.slots 0).pendingRecv = 1 ∧
    (s.slots 0).pendingSend = 1 ∧ (s.slots 0).session.batch = [7] ∧ s.OneInFlight := by
  have hRun : (exec (checked recvsLive step) (start 1 2 1) acceptAndSend).map (fun s =>
      decide ((s.slots 0).pendingRecv = 1 ∧ (s.slots 0).pendingSend = 1 ∧
        (s.slots 0).session.batch = [7])) = some true := by
    decide +kernel
  obtain ⟨s, hExec, hAnswer⟩ := Option.map_eq_some_iff.mp hRun
  obtain ⟨hRecv, hSend, hBatch⟩ := of_decide_eq_true hAnswer
  exact ⟨s, hRecv, hSend, hBatch, oneInFlight (reachable_of_checked recvsLive_of_test hExec)⟩

/-- `Disconnect` releases the session between `Init` and the count of `RecvPost`; the receive is posted
on it, and the accept thread posts another for the next client. -/
def releaseAndAccept : List (Thread 1 2 × Choice 1) :=
  goes .accept 18 ++ (.caller 0, .call 1 .disconnect) :: goes (.caller 0) 8 ++ goes .accept 6 ++
    goes (.caller 0) 13 ++ goes .accept 24

/-- A released session is opened again under the accept thread, which posts a second receive on it. -/
theorem not_oneInFlight : ¬ ∀ s : Server 1 2 1, Reached (fun _ _ => True) s → s.OneInFlight := by
  intro hAll
  have hRun : (exec step (start 1 2 1) releaseAndAccept).map (fun s =>
      decide ((s.slots 0).pendingRecv = 2)) = some true := by
    decide +kernel
  obtain ⟨s, hExec, hAnswer⟩ := Option.map_eq_some_iff.mp hRun
  have hTwo := of_decide_eq_true hAnswer
  have hOne := (hAll s (reachable_of_exec hExec)).recv 0
  omega

end Server

end NfNetwork.Net
