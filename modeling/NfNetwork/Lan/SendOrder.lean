import NfNetwork.Lan.ServerSteps

/-! Sending on a LAN session while it lives. `IsSendingAtomic` is a counter: a thread that finds it
above zero, or makes it more than one, leaves the queue to the thread that made it one. -/
namespace NfNetwork.Lan

open Machinery

variable {ioThreads callers poolSize : Nat}

/-- What a session was given to send, and what it has handed to the kernel. -/
inductive Traffic where
  | enqueued (packet : Nat)
  | posted (batch : List Nat)
deriving DecidableEq

def enqueuedOf (log : List Traffic) : List Nat :=
  log.filterMap fun
    | .enqueued packet => some packet
    | .posted _ => none

def postedOf (log : List Traffic) : List (List Nat) :=
  log.filterMap fun
    | .enqueued _ => none
    | .posted batch => some batch

/-- `PacketBuffer[0..PacketCount)`. -/
def LanSession.batch (session : LanSession) : List Nat :=
  (List.range session.packetCount).map session.packetBuffer

/-- The sends that the kernel owes a completion for. -/
def Slot.sends (slot : Slot) : Nat := slot.pending.countP fun op => op.1 == .send

/-- What a step has done to the traffic. -/
def Slot.traffic (slot slot' : Slot) : List Traffic :=
  (slot'.session.sendQueue.drop slot.session.sendQueue.length).map .enqueued ++
    if slot.sends < slot'.sends then [.posted slot.session.batch] else []

/-- The thread has the queue to itself. -/
@[simp] def SendPostPc.holdsQueue : SendPostPc → Nat
  | .readFlag | .incrementFlag | .decrementFlag => 0
  | .sampleSize | .resetCount _ | .dequeue _ _ | .store _ _ _ | .count _ _ | .increment | .readSocket
  | .wsaSend => 1

@[simp] def SlotPc.holdsQueue : SlotPc → Nat
  | .sendPost pc => pc.holdsQueue
  | .finishSending _ | .completed .send _ | .threw => 1
  | _ => 0

/-- The thread has counted in `IsSendingAtomic`. -/
@[simp] def SlotPc.flags : SlotPc → Nat
  | .sendPost .decrementFlag => 1
  | pc => pc.holdsQueue

/-- The steps that a session dies by, and those of `Release` and `Init` on its fields. -/
def SlotPc.ends (slot : Slot) : SlotPc → Bool
  | .tryRelease _ _ => slot.session.releasable
  | .drainCheck | .drainDequeue | .clearId | .clearCount | .init _ => true
  | _ => false

/-- Whoever takes from the queue has the flag. -/
theorem SlotPc.holdsQueue_le_flags (pc : SlotPc) : pc.holdsQueue ≤ pc.flags := by
  cases pc with
  | sendPost pc => cases pc <;> simp [SlotPc.flags, SlotPc.holdsQueue, SendPostPc.holdsQueue]
  | _ => exact Nat.le_refl _

/-- Weights compare frame by frame. -/
theorem Frame.weighs_le {w w' : SlotPc → Nat} (f : Frame poolSize) (k : Fin poolSize)
    (h : ∀ pc, w pc ≤ w' pc) : f.weighs k w ≤ f.weighs k w' := by
  cases f with
  | on k' pc =>
      rw [Frame.weighs, Frame.weighs]
      split
      · exact h pc
      · exact Nat.le_refl 0
  | _ => exact Nat.le_refl 0

/-- What the thread has taken out of the queue and not yet handed to the kernel. -/
@[simp] def SendPostPc.Took (slot : Slot) (took : List Nat) : SendPostPc → Prop
  | .readFlag | .incrementFlag | .decrementFlag => True
  | .sampleSize => took = []
  | .resetCount queueSize => took = [] ∧ 0 < queueSize ∧ queueSize ≤ slot.session.sendQueue.length ∧
      queueSize ≤ maxPacketCountPerSend
  | .dequeue queueSize i => took = slot.session.batch ∧ i = slot.session.packetCount ∧
      0 < queueSize ∧ i ≤ queueSize ∧ queueSize ≤ i + slot.session.sendQueue.length ∧
      queueSize ≤ maxPacketCountPerSend
  | .store queueSize i packet => took = slot.session.batch ++ [packet] ∧ i = slot.session.packetCount ∧
      i < queueSize ∧ queueSize ≤ i + 1 + slot.session.sendQueue.length ∧
      queueSize ≤ maxPacketCountPerSend
  | .count queueSize i =>
      took = slot.session.batch ++ [slot.session.packetBuffer slot.session.packetCount] ∧
      i = slot.session.packetCount ∧ i < queueSize ∧
      queueSize ≤ i + 1 + slot.session.sendQueue.length ∧ queueSize ≤ maxPacketCountPerSend
  | .increment | .readSocket | .wsaSend => took = slot.session.batch ∧
      0 < slot.session.packetCount ∧ slot.session.packetCount ≤ maxPacketCountPerSend

@[simp] def SlotPc.Took (slot : Slot) (took : List Nat) : SlotPc → Prop
  | .sendPost pc => pc.Took slot took
  | .finishSending _ | .completed .send _ | .threw => took = []
  | _ => True

/-- `flags` and `owners` are what the threads count. `stuck` is a send that the kernel refused: its
thread has left and still counts. -/
structure Gate (slot : Slot) (flags owners stuck : Nat) (took : List Nat) : Prop where
  flag : slot.session.isSending = (flags + slot.sends + stuck : Nat)
  owner : owners + slot.sends + stuck ≤ 1
  idle : owners = 0 → stuck = 0 → took = []

section Steps

variable {slot : Slot} {env : Env} {e : Effect} {flags owners stuck : Nat} {took : List Nat}

/-- What others see of a step: it puts packets in the queue, and leaves the batch alone unless it is
the owner's. -/
structure Effect.Leaves (e : Effect) (slot : Slot) : Prop where
  queue : ∃ new, e.slot.session.sendQueue = slot.session.sendQueue ++ new
  packetCount : e.slot.session.packetCount = slot.session.packetCount
  packetBuffer : e.slot.session.packetBuffer = slot.session.packetBuffer

/-- What a thread took is about the sending side only. -/
theorem SlotPc.Took.of_leaves {pc : SlotPc} (h : pc.Took slot took) (hLeaves : e.Leaves slot) :
    pc.Took e.slot took := by
  obtain ⟨⟨new, hQueue⟩, hCount, hBuffer⟩ := hLeaves
  have hBatch : e.slot.session.batch = slot.session.batch := by
    rw [LanSession.batch, LanSession.batch, hCount, hBuffer]
  cases pc with
  | sendPost pc =>
      cases pc <;>
        simp only [SlotPc.Took, SendPostPc.Took, hBatch, hCount, hBuffer, hQueue, List.length_append] at h ⊢ <;>
        grind
  | completed kind => cases kind <;> exact h
  | _ => exact h

/-- A place that no owner stands at says nothing of what was taken. -/
theorem SlotPc.Took.of_not_holdsQueue {pc : SlotPc} (h : pc.holdsQueue = 0) : pc.Took slot took := by
  cases pc with
  | sendPost pc => cases pc <;> trivial
  | completed kind => cases kind <;> trivial
  | finishSending | threw => cases h
  | _ => trivial

/-- What a step does to the traffic, next to threads that count `flags` and `owners`. -/
structure Effect.Sends (e : Effect) (slot : Slot) (flags owners : Nat) (took : List Nat)
    (stuck' : Nat) (took' : List Nat) : Prop where
  gate : Gate e.slot (flags + (e.next.map SlotPc.flags).sum) (owners + (e.next.map SlotPc.holdsQueue).sum)
    stuck' took'
  next : ∀ pc ∈ e.next, pc.Took e.slot took'
  others : owners = 0 ∨ took' = took ∧ e.Leaves slot
  order : (postedOf (slot.traffic e.slot)).flatten ++ took' ++ e.slot.session.sendQueue =
    took ++ slot.session.sendQueue ++ enqueuedOf (slot.traffic e.slot)
  batches : ∀ batch ∈ postedOf (slot.traffic e.slot),
    0 < batch.length ∧ batch.length ≤ maxPacketCountPerSend

/-- A step that hands nothing to the kernel. -/
theorem traffic_of_sends (slot slot' : Slot) (h : slot'.sends ≤ slot.sends) :
    slot.traffic slot' = (slot'.session.sendQueue.drop slot.session.sendQueue.length).map .enqueued := by
  rw [Slot.traffic, if_neg (Nat.not_lt.mpr h), List.append_nil]

/-- What was enqueued, read back from the traffic. -/
theorem enqueuedOf_map (packets : List Nat) : enqueuedOf (packets.map .enqueued) = packets := by
  induction packets with
  | nil => rfl
  | cons packet packets ih => exact congrArg (packet :: ·) ih

/-- `Enqueue` posts nothing. -/
theorem postedOf_map (packets : List Nat) : postedOf (packets.map .enqueued) = [] := by
  induction packets with
  | nil => rfl
  | cons packet packets ih => exact ih

/-- A step that leaves flag, batch and kernel alone, and may put packets in the queue. -/
theorem sends_of_leaves (pc : SlotPc) (new : List Nat)
    (hGate : Gate slot (flags + pc.flags) (owners + pc.holdsQueue) stuck took)
    (hSending : e.slot.session.isSending = slot.session.isSending)
    (hQueue : e.slot.session.sendQueue = slot.session.sendQueue ++ new)
    (hCount : e.slot.session.packetCount = slot.session.packetCount)
    (hBuffer : e.slot.session.packetBuffer = slot.session.packetBuffer)
    (hSends : e.slot.sends = slot.sends) (hFlags : (e.next.map SlotPc.flags).sum = pc.flags)
    (hOwns : (e.next.map SlotPc.holdsQueue).sum = pc.holdsQueue) (hTook : ∀ pc ∈ e.next, pc.Took e.slot took) :
    e.Sends slot flags owners took stuck took := by
  have hTraffic := traffic_of_sends _ _ hSends.le
  rw [hQueue, List.drop_left] at hTraffic
  obtain ⟨hFlag, hOwner, hIdle⟩ := hGate
  refine ⟨⟨?_, ?_, ?_⟩, hTook, .inr ⟨rfl, ⟨new, hQueue⟩, hCount, hBuffer⟩, ?_, ?_⟩
  · rwa [hFlags, hSends, hSending]
  · rwa [hOwns, hSends]
  · rwa [hOwns]
  · rw [hTraffic, postedOf_map, enqueuedOf_map, hQueue]
    simp
  · rw [hTraffic, postedOf_map]
    simp

/-- A step of the owner that hands nothing to the kernel. -/
theorem sends_of_owner (pc : SlotPc) {stuck' : Nat} {took' : List Nat}
    (hGate : Gate slot (flags + pc.flags) (owners + pc.holdsQueue) stuck took) (hOwner : pc.holdsQueue = 1)
    (hQueue : e.slot.session.sendQueue.length ≤ slot.session.sendQueue.length)
    (hOrder : took' ++ e.slot.session.sendQueue = took ++ slot.session.sendQueue)
    (hSending : e.slot.session.isSending = slot.session.isSending) (hSends : e.slot.sends = slot.sends)
    (hFlags : (e.next.map SlotPc.flags).sum + stuck' = pc.flags)
    (hOwns : (e.next.map SlotPc.holdsQueue).sum + stuck' ≤ 1)
    (hIdle : (e.next.map SlotPc.holdsQueue).sum = 0 → stuck' = 0 → took' = [])
    (hTook : ∀ pc ∈ e.next, pc.Took e.slot took') :
    e.Sends slot flags owners took stuck' took' := by
  have hTraffic := traffic_of_sends _ _ hSends.le
  rw [List.drop_eq_nil_of_le hQueue, List.map_nil] at hTraffic
  obtain ⟨hFlag, hOne, -⟩ := hGate
  refine ⟨⟨?_, ?_, fun hZero => hIdle (by omega)⟩, hTook, .inl (by omega), ?_, ?_⟩
  · rw [hSends, hSending]
    omega
  · rw [hSends]
    omega
  · rw [hTraffic]
    simpa [postedOf, enqueuedOf] using hOrder
  · rw [hTraffic]
    simp [postedOf]

/-- Storing above the batch leaves it as it is. -/
theorem batch_store (session : LanSession) (packet : Nat) :
    LanSession.batch { session with
      packetBuffer := Function.update session.packetBuffer session.packetCount packet } =
      session.batch := by
  apply List.map_congr_left
  intro i hi
  exact Function.update_of_ne (Nat.ne_of_lt (List.mem_range.mp hi)) ..

/-- The kernel takes the batch. -/
theorem sends_of_post
    (hGate : Gate slot (flags + 1) (owners + 1) stuck slot.session.batch)
    (hPos : 0 < slot.session.packetCount) (hMax : slot.session.packetCount ≤ maxPacketCountPerSend) :
    Effect.Sends { slot := slot.post .send, next := [] } slot flags owners slot.session.batch 0 [] := by
  obtain ⟨hFlag, hOwner, -⟩ := hGate
  have hSends : (slot.post .send).sends = slot.sends + 1 := by simp [Slot.sends, Slot.post]
  have hTraffic : slot.traffic (slot.post .send) = [.posted slot.session.batch] := by
    rw [Slot.traffic, if_pos (by omega)]
    simp [Slot.post]
  refine ⟨⟨?_, ?_, fun _ _ => rfl⟩, by simp, .inl (by omega), ?_, ?_⟩
  · rw [hSends]
    simp only [List.map_nil, List.sum_nil, Slot.post]
    omega
  · rw [hSends]
    simp only [List.map_nil, List.sum_nil]
    omega
  · rw [hTraffic]
    simp [postedOf, enqueuedOf, Slot.post]
  · rw [hTraffic]
    simpa [postedOf, LanSession.batch] using ⟨hPos, hMax⟩

/-- A step that counts in the flag, or out of it. -/
theorem sends_of_flag {isSending : Int} {next : List SlotPc}
    (hFlag : isSending = (flags + (next.map SlotPc.flags).sum + slot.sends + stuck : Nat))
    (hOwner : owners + (next.map SlotPc.holdsQueue).sum + slot.sends + stuck ≤ 1)
    (hIdle : owners + (next.map SlotPc.holdsQueue).sum = 0 → stuck = 0 → took = [])
    (hTook : ∀ pc ∈ next, pc.Took (slot.set { slot.session with isSending := isSending }) took) :
    Effect.Sends { slot := slot.set { slot.session with isSending := isSending }, next := next } slot
      flags owners took stuck took := by
  refine ⟨⟨hFlag, hOwner, hIdle⟩, hTook, .inr ⟨rfl, ⟨[], by simp⟩, rfl, rfl⟩, ?_, ?_⟩
  all_goals simp [Slot.traffic, Slot.sends, postedOf, enqueuedOf]

/-- `SendPost` takes from the front of the queue and posts what it took. -/
theorem SendPostPc.step_sends {pc : SendPostPc} (h : pc.step slot env = some e)
    (hGate : Gate slot (flags + SlotPc.flags (.sendPost pc)) (owners + pc.holdsQueue) stuck took)
    (hTook : pc.Took slot took) (hLe : owners ≤ flags) :
    ∃ stuck' took', e.Sends slot flags owners took stuck' took' := by
  cases pc
  all_goals simp only [SendPostPc.step, goto, update] at h
  case readFlag =>
    cases h
    refine ⟨stuck, took, sends_of_leaves (.sendPost .readFlag) [] hGate rfl
      (List.append_nil _).symm rfl rfl rfl ?_ ?_ ?_⟩
    all_goals
      dsimp only
      split <;> simp
  case incrementFlag =>
    cases h
    obtain ⟨hFlag, hOwner, hIdle⟩ := hGate
    simp only [SlotPc.flags, SlotPc.holdsQueue, SendPostPc.holdsQueue] at hFlag hOwner hIdle
    refine ⟨stuck, took, sends_of_flag ?_ ?_ ?_ ?_⟩
    -- The first to count owns the queue, and finds nothing taken out of it.
    all_goals by_cases hFirst : slot.session.isSending + 1 = 1
    all_goals simp only [hFirst, ne_eq, not_true_eq_false, not_false_eq_true, if_true, if_false]
    all_goals simp
    all_goals grind
  case decrementFlag =>
    cases h
    obtain ⟨hFlag, hOwner, hIdle⟩ := hGate
    refine ⟨stuck, took, sends_of_flag ?_ hOwner hIdle (by simp)⟩
    rw [hFlag]
    simp
    omega
  case sampleSize =>
    obtain rfl : took = [] := hTook
    split at h
    · cases h
      exact ⟨0, [], sends_of_owner (.sendPost .sampleSize) hGate rfl (Nat.le_refl _) rfl rfl rfl
        (by simp) (by simp) (by simp) (by simp)⟩
    · cases h
      refine ⟨0, [], sends_of_owner (.sendPost .sampleSize) hGate rfl (Nat.le_refl _) rfl rfl rfl
        ?_ ?_ (by simp) ?_⟩
      all_goals dsimp only
      all_goals split
      all_goals simp
      omega
  case resetCount queueSize =>
    cases h
    obtain ⟨rfl, hPos, hQueue, hMax⟩ := hTook
    refine ⟨0, [], sends_of_owner (.sendPost (.resetCount queueSize)) hGate rfl (Nat.le_refl _) rfl rfl rfl
      (by simp) (by simp) (by simp) ?_⟩
    simpa [LanSession.batch] using ⟨hPos, hQueue, hMax⟩
  case dequeue queueSize i =>
    obtain ⟨rfl, hCount, hPos, hLe, hQueue, hMax⟩ := hTook
    split at h
    · split at h
      · rename_i hEmpty
        rw [hEmpty, List.length_nil] at hQueue
        omega
      · rename_i packet sendQueue hNext
        cases h
        rw [hNext, List.length_cons] at hQueue
        refine ⟨0, slot.session.batch ++ [packet], sends_of_owner (.sendPost (.dequeue queueSize i)) hGate
          rfl (by simp [hNext]) (by simp [hNext]) rfl rfl (by simp) (by simp) (by simp) ?_⟩
        simp [LanSession.batch]
        omega
    · cases h
      refine ⟨0, slot.session.batch, sends_of_owner (.sendPost (.dequeue queueSize i)) hGate rfl
        (Nat.le_refl _) rfl rfl rfl (by simp) (by simp) (by simp) ?_⟩
      simp
      omega
  case store queueSize i packet =>
    cases h
    obtain ⟨rfl, hCount, hMore, hQueue, hMax⟩ := hTook
    refine ⟨0, _, sends_of_owner (.sendPost (.store queueSize i packet)) hGate rfl (Nat.le_refl _) rfl rfl
      rfl (by simp) (by simp) (by simp) ?_⟩
    simpa [batch_store] using ⟨hCount, hMore, hQueue, hMax⟩
  case count queueSize i =>
    cases h
    obtain ⟨rfl, hCount, hMore, hQueue, hMax⟩ := hTook
    refine ⟨0, _, sends_of_owner (.sendPost (.count queueSize i)) hGate rfl (Nat.le_refl _) rfl rfl
      rfl (by simp) (by simp) (by simp) ?_⟩
    simp [LanSession.batch, List.range_succ]
    omega
  case increment =>
    cases h
    exact ⟨0, took, sends_of_owner (.sendPost .increment) hGate rfl (Nat.le_refl _) rfl rfl
      rfl (by simp) (by simp) (by simp) (by simpa [LanSession.batch] using hTook)⟩
  case readSocket =>
    cases h
    cases hSocket : slot.session.hasSocket
    · exact ⟨1, took, sends_of_owner (.sendPost .readSocket) hGate rfl (Nat.le_refl _) rfl rfl
        rfl (by simp) (by simp) (by simp) (by simp)⟩
    · exact ⟨0, took, sends_of_owner (.sendPost .readSocket) hGate rfl (Nat.le_refl _) rfl rfl
        rfl (by simp) (by simp) (by simp) (by simpa using hTook)⟩
  case wsaSend =>
    obtain ⟨rfl, hPos, hMax⟩ := hTook
    have hFailed : Effect.Sends { slot := slot, next := [.decrement] } slot flags owners slot.session.batch 1
        slot.session.batch :=
      sends_of_owner (.sendPost .wsaSend) hGate rfl (Nat.le_refl _) rfl rfl rfl (by simp) (by simp)
        (by simp) (by simp)
    cases env with
    | ok =>
        cases h
        exact ⟨0, [], sends_of_post hGate hPos hMax⟩
    | fail | deliver =>
        cases h
        exact ⟨1, _, hFailed⟩

/-- `RecvPost` leaves the sending side alone. -/
theorem RecvPostPc.step_sends {pc : RecvPostPc} (h : pc.step slot env = some e)
    (hGate : Gate slot flags owners stuck took) : e.Sends slot flags owners took stuck took := by
  cases pc with
  | increment =>
      cases h
      exact sends_of_leaves (.recvPost .increment) [] hGate rfl (List.append_nil _).symm rfl rfl rfl
        (by simp) (by simp) (by simp)
  | readSocket =>
      cases h
      refine sends_of_leaves (.recvPost .readSocket) [] hGate rfl (List.append_nil _).symm rfl rfl rfl
        ?_ ?_ ?_
      all_goals cases slot.session.hasSocket <;> simp
  | wsaRecv =>
      cases env <;> cases h
      all_goals
        refine sends_of_leaves (.recvPost .wsaRecv) [] hGate rfl (List.append_nil _).symm rfl rfl
          ?_ ?_ ?_ ?_
      all_goals simp [Slot.sends, Slot.post]

/-- `FinishSending` frees what was posted and takes the flag down. -/
theorem FinishPc.step_sends {pc : FinishPc} (h : pc.step slot = some e)
    (hGate : Gate slot (flags + 1) (owners + 1) stuck []) :
    ∃ stuck', e.Sends slot flags owners [] stuck' [] := by
  cases pc <;> cases h
  case free i =>
    exact ⟨0, sends_of_owner (.finishSending (.free i)) hGate rfl (Nat.le_refl _) rfl rfl rfl
      (by simp) (by simp) (by simp) (by simp)⟩
  case resetCount =>
    exact ⟨0, sends_of_owner (.finishSending .resetCount) hGate rfl (Nat.le_refl _) rfl rfl rfl
      (by simp) (by simp) (by simp) (by simp)⟩
  case decrementFlag =>
    obtain ⟨hFlag, hOwner, -⟩ := hGate
    refine ⟨stuck, sends_of_flag ?_ ?_ (fun _ _ => rfl) (by simp)⟩
    · rw [hFlag]
      simp
      omega
    · simp
      omega

/-- A completion brings the flag to the thread that serves it. -/
theorem step_sends_completed {kind : OpKind} {outcome : Outcome}
    (h : SlotPc.step slot env (.completed kind outcome) = some e)
    (hGate : Gate slot (flags + SlotPc.flags (.completed kind outcome))
      (owners + SlotPc.holdsQueue (.completed kind outcome)) stuck took)
    (hTook : SlotPc.Took slot took (.completed kind outcome)) :
    ∃ stuck' took', e.Sends slot flags owners took stuck' took' := by
  cases kind with
  | recv =>
      refine ⟨stuck, took, ?_⟩
      cases outcome <;> simp only [SlotPc.step, goto] at h
      all_goals
        cases h
        refine sends_of_leaves _ [] hGate rfl (List.append_nil _).symm rfl rfl rfl ?_ ?_ ?_
      all_goals dsimp only
      all_goals repeat' split
      all_goals simp
  | send =>
      obtain rfl : took = [] := hTook
      -- A send that failed counts in the flag for good.
      have hFailed : Effect.Sends { slot := slot, next := [.decrement] } slot flags owners [] 1 [] :=
        sends_of_owner _ hGate rfl (Nat.le_refl _) rfl rfl rfl (by simp) (by simp) (by simp) (by simp)
      cases outcome <;> simp only [SlotPc.step, goto] at h
      case failed =>
        cases h
        exact ⟨1, [], hFailed⟩
      case succeeded transferred =>
        split at h
        · cases h
          exact ⟨1, [], hFailed⟩
        · cases h
          exact ⟨0, [], sends_of_owner _ hGate rfl (Nat.le_refl _) rfl rfl rfl (by simp) (by simp) (by simp)
            (by simp)⟩

/-- What a step does to the traffic while the session lives. -/
theorem SlotPc.step_sends {pc : SlotPc} (h : pc.step slot env = some e)
    (hLives : pc.ends slot = false)
    (hGate : Gate slot (flags + pc.flags) (owners + pc.holdsQueue) stuck took)
    (hTook : pc.Took slot took) (hLe : owners ≤ flags) :
    ∃ stuck' took', e.Sends slot flags owners took stuck' took' := by
  cases pc
  case sendPost pc => exact pc.step_sends h hGate hTook hLe
  case completed kind outcome => exact step_sends_completed h hGate hTook
  case finishSending pc =>
    obtain rfl : took = [] := hTook
    obtain ⟨stuck', hSends⟩ := pc.step_sends h hGate
    exact ⟨stuck', [], hSends⟩
  case enqueue packet =>
    refine ⟨stuck, took, ?_⟩
    cases env <;> cases h
    · exact sends_of_leaves _ [packet] hGate rfl rfl rfl rfl rfl rfl rfl (by simp)
    all_goals exact sends_of_leaves _ [] hGate rfl (List.append_nil _).symm rfl rfl rfl rfl rfl (by simp)
  case init | drainCheck | drainDequeue | clearId | clearCount => cases hLives
  case tryRelease id index =>
    rw [step, if_neg (by simpa [ends] using hLives)] at h
    cases h
    exact ⟨stuck, took, sends_of_leaves _ [] hGate rfl (List.append_nil _).symm rfl rfl rfl rfl rfl (by simp)⟩
  all_goals refine ⟨stuck, took, ?_⟩
  case recvPost pc => exact pc.step_sends h hGate
  all_goals simp only [step, goto, update] at h
  all_goals repeat' split at h
  all_goals cases h
  all_goals
    exact sends_of_leaves _ [] hGate rfl (List.append_nil _).symm rfl rfl rfl (by simp) (by simp)
      (by simp)

/-- A completion takes over from the kernel. -/
theorem sends_of_completion {op : OpKind × Nat} (outcome : Outcome)
    (hGate : Gate slot flags owners stuck took) (hMem : op ∈ slot.pending) :
    ∃ stuck' took', Effect.Sends
      { slot := { slot with pending := slot.pending.erase op }, next := [.completed op.1 outcome] } slot
      flags owners took stuck' took' := by
  have hErase : Slot.sends { slot with pending := slot.pending.erase op } =
      slot.sends - if op.1 == .send then 1 else 0 := by
    simp [Slot.sends, List.countP_erase, hMem]
  obtain ⟨hFlag, hOwner, hIdle⟩ := hGate
  obtain ⟨kind, incarnation⟩ := op
  cases kind with
  | recv =>
      simp only [Nat.sub_zero, reduceCtorEq, beq_iff_eq, if_false] at hErase
      refine ⟨stuck, took, sends_of_leaves .recvLoop [] ⟨hFlag, hOwner, hIdle⟩ rfl
        (List.append_nil _).symm rfl rfl hErase rfl rfl (by simp)⟩
  | send =>
      simp only [beq_self_eq_true, if_true] at hErase
      have hPos : 0 < slot.sends := List.countP_pos_iff.mpr ⟨_, hMem, rfl⟩
      obtain rfl : took = [] := hIdle (by omega) (by omega)
      have hTraffic := traffic_of_sends slot { slot with pending := slot.pending.erase (.send, incarnation) } (by omega)
      refine ⟨0, [], ⟨?_, ?_, fun _ _ => rfl⟩, by simp, .inl (by omega), ?_, ?_⟩
      · rw [hErase, hFlag]
        simp
        omega
      · rw [hErase]
        simp
        omega
      · rw [hTraffic]
        simp [postedOf, enqueuedOf]
      · rw [hTraffic]
        simp [postedOf]

end Steps

namespace Server

variable {s s' : Server ioThreads callers poolSize} {t : Thread ioThreads callers} {k : Fin poolSize}
  {log : List Traffic} {stuck : Nat} {took : List Nat}

/-- What the threads count in `IsSendingAtomic` of the session in slot `k`. -/
def flags (s : Server ioThreads callers poolSize) (k : Fin poolSize) : Nat :=
  weight (Frame.weighs k SlotPc.flags) s.threads

/-- The threads that have the queue of slot `k` to themselves. -/
def owners (s : Server ioThreads callers poolSize) (k : Fin poolSize) : Nat :=
  weight (Frame.weighs k SlotPc.holdsQueue) s.threads

/-- Everything given to the session is posted, taken or queued, in order. -/
structure Orders (s : Server ioThreads callers poolSize) (k : Fin poolSize) (log : List Traffic)
    (stuck : Nat) (took : List Nat) : Prop where
  gate : Gate (s.slots k) (s.flags k) (s.owners k) stuck took
  places : ∀ t, ∀ f ∈ s.threads t, ∀ pc, f = .on k pc → pc.Took (s.slots k) took
  order : (postedOf log).flatten ++ took ++ (s.slots k).session.sendQueue = enqueuedOf log
  batches : ∀ batch ∈ postedOf log, 0 < batch.length ∧ batch.length ≤ maxPacketCountPerSend

/-- No change, no traffic. -/
theorem traffic_self (slot : Slot) : slot.traffic slot = [] := by
  rw [traffic_of_sends _ _ (Nat.le_refl _), List.drop_length, List.map_nil]

/-- Frames that are not sending come and go. -/
theorem Orders.quiet (h : s.Orders k log stuck took) (top next : List (Frame poolSize))
    {rest : List (Frame poolSize)} (hTop : s.threads t = top ++ rest)
    (hThreads : s'.threads = Function.update s.threads t (next ++ rest)) (hSlot : s'.slots k = s.slots k)
    (hNone : ∀ f ∈ top ++ next, f.weighs k SlotPc.flags = 0) :
    s'.Orders k (log ++ (s.slots k).traffic (s'.slots k)) stuck took := by
  have hOwn : ∀ f ∈ top ++ next, f.weighs k SlotPc.holdsQueue = 0 := fun f hMem =>
    Nat.le_zero.mp (hNone f hMem ▸ f.weighs_le k SlotPc.holdsQueue_le_flags)
  have hWeight : ∀ w : Frame poolSize → Nat, (∀ f ∈ top ++ next, w f = 0) →
      weight w s'.threads = weight w s.threads := by
    intro w hw
    have hUpdate := weight_update w hTop next
    rw [sum_map_zero fun f hMem => hw f (List.mem_append_left _ hMem),
      sum_map_zero fun f hMem => hw f (List.mem_append_right _ hMem)] at hUpdate
    rwa [hThreads]
  have hFlags : s'.flags k = s.flags k := hWeight _ hNone
  have hOwners : s'.owners k = s.owners k := hWeight _ hOwn
  rw [hSlot, traffic_self, List.append_nil]
  refine ⟨?_, ?_, ?_, h.batches⟩
  · rw [hFlags, hOwners, hSlot]
    exact h.gate
  · rw [hThreads, hSlot]
    apply forall_frames_update h.places hTop
    rintro f hMem pc rfl
    apply SlotPc.Took.of_not_holdsQueue
    simpa [Frame.weighs] using hOwn _ (List.mem_append_right _ hMem)
  · rw [hSlot]
    exact h.order

/-- A step at slot `k`. -/
theorem Orders.sends (h : s.Orders k log stuck took) (top next : List (Frame poolSize))
    {rest : List (Frame poolSize)} {e : Effect} {stuck' : Nat} {took' : List Nat}
    (hTop : s.threads t = top ++ rest)
    (hThreads : s'.threads = Function.update s.threads t (next ++ rest)) (hSlot : s'.slots k = e.slot)
    (hNext : ∀ w, (next.map (Frame.weighs k w)).sum = (e.next.map w).sum)
    (hPlaces : ∀ pc, .on k pc ∈ next → pc ∈ e.next)
    (hSends : e.Sends (s.slots k) ((others s.threads t rest).map (Frame.weighs k SlotPc.flags)).sum
      ((others s.threads t rest).map (Frame.weighs k SlotPc.holdsQueue)).sum took stuck' took') :
    s'.Orders k (log ++ (s.slots k).traffic (s'.slots k)) stuck' took' := by
  obtain ⟨hGate, hNew, hOthers, hOrder, hBatches⟩ := hSends
  rw [hSlot]
  refine ⟨?_, ?_, ?_, ?_⟩
  · rwa [flags, owners, hThreads, weight_update_eq, weight_update_eq, hNext, hNext, hSlot]
  · rintro t' f hMem pc rfl
    rw [hSlot]
    have hFrames : .on k pc ∈ frames s'.threads := mem_frames.mpr ⟨t', hMem⟩
    rw [hThreads, frames_update, Multiset.mem_add] at hFrames
    rcases hFrames with hIn | hIn
    · exact hNew pc (hPlaces pc hIn)
    · rcases hOthers with hNone | ⟨rfl, hLeaves⟩
      · apply SlotPc.Took.of_not_holdsQueue
        have hLe := Multiset.single_le_sum (fun _ _ => Nat.zero_le _) _
          (Multiset.mem_map_of_mem (Frame.weighs k SlotPc.holdsQueue) hIn)
        simpa [hNone, Frame.weighs] using hLe
      · have hOld : .on k pc ∈ frames s.threads := by
          rw [frames_eq hTop]
          exact Multiset.mem_add.mpr (.inr hIn)
        obtain ⟨t'', hMem'⟩ := mem_frames.mp hOld
        exact (h.places t'' _ hMem' pc rfl).of_leaves hLeaves
  · have hPosted : postedOf (log ++ (s.slots k).traffic e.slot) =
        postedOf log ++ postedOf ((s.slots k).traffic e.slot) := List.filterMap_append ..
    have hEnqueued : enqueuedOf (log ++ (s.slots k).traffic e.slot) =
        enqueuedOf log ++ enqueuedOf ((s.slots k).traffic e.slot) := List.filterMap_append ..
    rw [hPosted, hEnqueued, hSlot, List.flatten_append, List.append_assoc, List.append_assoc,
      ← List.append_assoc _ took', hOrder, ← h.order]
    simp only [List.append_assoc]
  · intro batch hMem
    rw [postedOf, List.filterMap_append] at hMem
    rcases List.mem_append.mp hMem with hOld | hLast
    · exact h.batches batch hOld
    · exact hBatches batch hLast

/-- One step of the server, unless the session dies by it. -/
theorem Orders.step (h : s.Orders k log stuck took) (hStep : s.Advance t s')
    (hLives : ∀ pc rest, s.threads t = .on k pc :: rest → pc.ends (s.slots k) = false) :
    ∃ stuck' took', s'.Orders k (log ++ (s.slots k).traffic (s'.slots k)) stuck' took' := by
  cases hStep with
  | plain top next hTop hPlain =>
      exact ⟨stuck, took, h.quiet top next hTop rfl rfl fun f hMem => Frame.weighs_of_plain (hPlain f hMem)⟩
  | @called id purpose hIndex =>
      refine ⟨stuck, took, h.quiet [] [.on _ (purpose.entry id)] rfl rfl rfl fun f hMem => ?_⟩
      obtain rfl := List.mem_singleton.mp hMem
      cases purpose <;> simp [Frame.weighs, Purpose.entry]
  | @completed k' op outcome hIdle hMem =>
      by_cases hk : k' = k
      · subst hk
        obtain ⟨stuck', took', hSends'⟩ := sends_of_completion outcome h.gate hMem
        rw [flags, owners, weight_eq _ [] hIdle, weight_eq _ [] hIdle,
          List.map_nil, List.map_nil, List.sum_nil, Nat.add_zero, Nat.add_zero] at hSends'
        refine ⟨stuck', took', h.sends [] [_] hIdle rfl ?_ ?_ ?_ hSends'⟩
        · simp
        · simp [Frame.weighs]
        · simp
      · refine ⟨stuck, took, h.quiet [] [.on k' (.completed op.1 outcome)] hIdle rfl ?_ ?_⟩
        · simp [Ne.symm hk]
        · simp [Frame.weighs, hk]
  | popped hTop =>
      exact ⟨stuck, took, h.quiet [.tryPop] [.nextUid _] hTop rfl rfl (by simp [Frame.weighs])⟩
  | counted hTop =>
      exact ⟨stuck, took, h.quiet [.nextUid _] [.checkUid _ _] hTop rfl rfl (by simp [Frame.weighs])⟩
  | refused hTop =>
      exact ⟨stuck, took, h.quiet [.checkUid _ _] [.nextUid _] hTop rfl rfl (by simp [Frame.weighs])⟩
  | @chosen index uid rest hTop hIndex =>
      refine ⟨stuck, took, h.quiet [.checkUid index uid] _ hTop rfl rfl ?_⟩
      simp [Frame.weighs, initSteps]
  | @ran k' pc rest env e hTop hStep =>
      by_cases hk : k' = k
      · subst hk
        have hGate := h.gate
        rw [flags, owners, weight_eq _ [_] hTop, weight_eq _ [_] hTop] at hGate
        simp only [List.map_cons, List.map_nil, List.sum_singleton, Frame.weighs, if_true] at hGate
        have hLe := Multiset.sum_map_le_sum_map (Frame.weighs k' SlotPc.holdsQueue) (Frame.weighs k' SlotPc.flags)
          (s := others s.threads t rest) fun f _ => f.weighs_le k' SlotPc.holdsQueue_le_flags
        obtain ⟨stuck', took', hSends⟩ := SlotPc.step_sends hStep (hLives pc rest hTop) hGate
          (h.places t _ (hTop ▸ List.mem_cons_self ..) pc rfl) hLe
        refine ⟨stuck', took', h.sends [_] (effectFrames k' e) hTop rfl ?_ ?_ ?_ hSends⟩
        · simp [apply]
        · intro w
          rw [sum_weighs_effectFrames, if_pos rfl]
        · simp [effectFrames]
      · refine ⟨stuck, took, h.quiet [.on k' pc] (effectFrames k' e) hTop rfl ?_ ?_⟩
        · simp [apply, Ne.symm hk]
        · intro f hMem
          rcases List.mem_append.mp hMem with hOld | hNext
          · obtain rfl := List.mem_singleton.mp hOld
            simp [Frame.weighs, hk]
          · simp only [effectFrames, List.mem_append, List.mem_ite_nil_right, List.mem_singleton,
              List.mem_map] at hNext
            obtain ⟨-, rfl⟩ | ⟨pc', -, rfl⟩ := hNext
            · rfl
            · simp [Frame.weighs, hk]

/-- The session in slot `k` does not die by the step. -/
def lives (k : Fin poolSize) (s : Server ioThreads callers poolSize)
    (a : Thread ioThreads callers × Choice poolSize) : Bool :=
  match s.threads a.1 with
  | .on k' pc :: _ => k' != k || !pc.ends (s.slots k)
  | _ => true

/-- The server, as long as the session in slot `k` lives. -/
abbrev lifeStep (k : Fin poolSize) :=
  checked (lives k) (step : Server ioThreads callers poolSize → Thread ioThreads callers × Choice poolSize →
    Option (Server ioThreads callers poolSize))

/-- A step within the life of a session is one of the server's. -/
theorem advance_of_lifeStep {choice : Choice poolSize} (h : lifeStep k s (t, choice) = some s') :
    s.Advance t s' ∧ ∀ pc rest, s.threads t = .on k pc :: rest → pc.ends (s.slots k) = false := by
  rw [lifeStep, checked] at h
  split at h
  · rename_i hLives
    refine ⟨step_advance h, fun pc rest hTop => ?_⟩
    simpa [lives, hTop] using hLives
  · cases h

/-- No sending is under way in slot `k`. -/
structure Idle (s : Server ioThreads callers poolSize) (k : Fin poolSize) : Prop where
  flag : (s.slots k).session.isSending = 0
  queue : (s.slots k).session.sendQueue = []
  sends : (s.slots k).sends = 0
  places : ∀ t, ∀ f ∈ s.threads t, f.weighs k SlotPc.flags = 0

/-- An idle session owes nothing. -/
theorem Idle.orders (h : s.Idle k) : s.Orders k [] 0 [] := by
  have hOwn : ∀ t, ∀ f ∈ s.threads t, f.weighs k SlotPc.holdsQueue = 0 := fun t f hMem =>
    Nat.le_zero.mp (h.places t f hMem ▸ f.weighs_le k SlotPc.holdsQueue_le_flags)
  have hFlags : s.flags k = 0 := by
    by_contra hNonzero
    obtain ⟨t, f, hMem, hWeighs⟩ := exists_of_weight hNonzero
    exact hWeighs (h.places t f hMem)
  have hOwners : s.owners k = 0 := by
    by_contra hNonzero
    obtain ⟨t, f, hMem, hWeighs⟩ := exists_of_weight hNonzero
    exact hWeighs (hOwn t f hMem)
  refine ⟨⟨?_, ?_, fun _ _ => rfl⟩, ?_, ?_, by simp [postedOf]⟩
  · rw [h.flag, hFlags, h.sends]
    rfl
  · rw [hOwners, h.sends]
    exact Nat.zero_le _
  · rintro t f hMem pc rfl
    apply SlotPc.Took.of_not_holdsQueue
    simpa [Frame.weighs] using hOwn t _ hMem
  · rw [h.queue]
    rfl

/-- The server with the traffic of slot `k`. -/
abbrev logged (k : Fin poolSize) :=
  recorded (lifeStep k) fun s s' : Server ioThreads callers poolSize => (s.slots k).traffic (s'.slots k)

/-- The run lemma, with the traffic recorded. -/
theorem orders_of_logged {s₀ : Server ioThreads callers poolSize} (hIdle : s₀.Idle k)
    (h : Reachable (Takes (logged k)) (fun _ _ => True) (s₀, []) (s, log)) :
    ∃ stuck took, s.Orders k log stuck took := by
  suffices hAll : ∀ r, Reachable (Takes (logged k)) (fun _ _ => True) (s₀, []) r →
      ∃ stuck took, r.1.Orders k r.2 stuck took from hAll _ h
  intro r hRun
  apply hRun.invariant
  · exact ⟨0, [], hIdle.orders⟩
  rintro ⟨s, log⟩ r ⟨t, choice⟩ - ⟨stuck, took, hOrders⟩ - hStep
  obtain ⟨s', hTakes, rfl⟩ := Option.map_eq_some_iff.mp hStep
  obtain ⟨hAdvance, hLives⟩ := advance_of_lifeStep hTakes
  exact hOrders.step hAdvance hLives

/-- One send at a time, of at most as many packets as its buffer holds, and every packet once and in
the order in which it was given to the session. -/
structure SendsInOrder (s : Server ioThreads callers poolSize) (k : Fin poolSize) (log : List Traffic) :
    Prop where
  order : ∃ took, (postedOf log).flatten ++ took ++ (s.slots k).session.sendQueue = enqueuedOf log ∧
    ((s.slots k).session.isSending = 0 → took = [])
  batches : ∀ batch ∈ postedOf log, 0 < batch.length ∧ batch.length ≤ maxPacketCountPerSend
  oneSend : s.owners k + (s.slots k).sends ≤ 1
  dequeues : ∀ t rest queueSize i, s.threads t = .on k (.sendPost (.dequeue queueSize i)) :: rest →
    i < queueSize → (s.slots k).session.sendQueue ≠ []

/-- While a session lives, whatever its threads do in whatever order. -/
theorem session_sendsInOrder {s₀ : Server ioThreads callers poolSize} (hIdle : s₀.Idle k)
    (h : Reachable (Takes (logged k)) (fun _ _ => True) (s₀, []) (s, log)) : s.SendsInOrder k log := by
  obtain ⟨stuck, took, hGate, hPlaces, hOrder, hBatches⟩ := orders_of_logged hIdle h
  have hLe : s.owners k ≤ s.flags k := by
    apply Multiset.sum_map_le_sum_map
    intro f _
    exact f.weighs_le k SlotPc.holdsQueue_le_flags
  obtain ⟨hFlag, hOwner, hTaken⟩ := hGate
  refine ⟨⟨took, hOrder, fun hZero => hTaken (by omega) (by omega)⟩, hBatches, by omega, ?_⟩
  intro t rest queueSize i hTop hMore hEmpty
  obtain ⟨-, -, -, -, hQueue, -⟩ := hPlaces t _ (hTop ▸ List.mem_cons_self ..) _ rfl
  rw [hEmpty, List.length_nil] at hQueue
  omega

/-- Two packets are sent while the kernel has the first. -/
private def threePackets : List (Thread 1 2 × Choice 2) :=
  (.caller 0, .call (2 ^ 48 + 1) (.sendPacket 7)) :: goes (.caller 0) 18 ++
    (.caller 1, .call (2 ^ 48 + 1) (.sendPacket 8)) :: goes (.caller 1) 8 ++
    (.caller 0, .call (2 ^ 48 + 1) (.sendPacket 9)) :: goes (.caller 0) 8 ++
    (.io 0, .completion 1 (.send, 1) (.succeeded 1)) :: goes (.io 0) 24

/-- Three packets in two sends. -/
theorem session_sendsInOrder_threePackets :
    ∃ (s : Server 1 2 2) (log : List Traffic), postedOf log = [[7], [8, 9]] ∧ s.SendsInOrder 1 log := by
  have hRun : ((exec step (start 1 2 2) (goes .accept 21)).bind fun s =>
      (exec (logged 1) (s, []) threePackets).map fun r =>
        decide (((s.slots 1).session.isSending = 0 ∧ (s.slots 1).session.sendQueue = [] ∧
          (s.slots 1).sends = 0 ∧ ∀ t, ∀ f ∈ s.threads t, f.weighs 1 SlotPc.flags = 0) ∧
          postedOf r.2 = [[7], [8, 9]])) = some true := by
    decide +kernel
  obtain ⟨s₀, -, hLogged⟩ := Option.bind_eq_some_iff.mp hRun
  obtain ⟨⟨s, log⟩, hExec, hHolds⟩ := Option.map_eq_some_iff.mp hLogged
  obtain ⟨⟨hFlag, hQueue, hSends, hPlaces⟩, hPosted⟩ := of_decide_eq_true hHolds
  exact ⟨s, log, hPosted, session_sendsInOrder ⟨hFlag, hQueue, hSends, hPlaces⟩ (reachable_of_exec hExec)⟩

end Server

end NfNetwork.Lan
