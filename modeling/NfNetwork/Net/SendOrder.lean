import Mathlib.Algebra.Group.Action.Defs
import Mathlib.Algebra.Order.BigOperators.Group.List
import Mathlib.Algebra.Order.Group.Nat
import Mathlib.Data.List.Infix
import NfNetwork.Machinery.Transition
import NfNetwork.Net.Session
import NfNetwork.Packet.Contents

/-! `Enqueue`, `ReadySending` and `FinishSending` of one session, called by any
number of threads. To the steps of the session this adds what they write besides:
`TotalByteSize` and the `SendingBuffer` of the caller. The queue is refined to the
order in which the batches are handed out. -/
namespace NfNetwork.Net

open Machinery

/-- An element of `SendingBuffer::Buffers`: a pointer into the `mBuffer` of a
packet, and a length. -/
structure WsaBuf where
  packet : Nat
  offset : Nat
  len : Nat
  deriving DecidableEq, Repr

structure SendingBuffer where
  buffers : Nat → WsaBuf
  bufferSize : Nat

/-- A packet whose cursors lie in its own memory. -/
abbrev SendPacket := { p : Packet netLayout // p.Written }

/-- What `ReadySending` stores for a packet: `GetHeaderPtr()` and `GetPacketSize()`. -/
def wsaBuf (packets : Nat → SendPacket) (packet : Nat) : WsaBuf where
  packet := packet
  offset := 0
  len := (packets packet).val.getPacketSize % 2 ^ 32

/-- A batch as `ReadySending` hands it out, with `mSendingInfo` next to it. -/
structure Batch where
  sending : SendingBuffer
  packetCount : Nat
  packetBuffer : Nat → Nat
  totalByteSize : Nat

def Batch.packets (b : Batch) : List Nat := (List.range b.packetCount).map b.packetBuffer

/-- The two descriptions of a batch agree. -/
structure Batch.Describes (packets : Nat → SendPacket) (b : Batch) : Prop where
  size : b.sending.bufferSize = b.packetCount
  buffers : ∀ i < b.packetCount, b.sending.buffers i =
    ⟨b.packetBuffer i, 0, (packets (b.packetBuffer i)).val.getPacketSize⟩
  total : b.totalByteSize = ((List.range b.packetCount).map fun i => (b.sending.buffers i).len).sum

section Calls

/-- The places inside `Enqueue`, `ReadySending` and `FinishSending`. -/
def SlotPc.ofSession : SlotPc → Bool
  | .enqueueClosed _ _ | .enqueueReleased _ _ | .addRef _ _ | .enqueue _ _ => true
  | .sendPost _ .readySending | .sendPost _ .sampleSize | .sendPost _ .clearFlag
  | .sendPost _ (.resetCount _) | .sendPost _ (.dequeue _ _ _) | .sendPost _ (.store _ _ _ _)
  | .sendPost _ (.count _ _ _ _) | .sendPost _ (.checkCount _) | .sendPost _ (.markPosted _) => true
  | .finishSending _ _ => true
  | _ => false

/-- Where the call goes on, if it has not returned or thrown. -/
def SlotPc.goesOn (pc : SlotPc) (next : List SlotPc) : Option SlotPc :=
  match pc with
  | .enqueue _ _ => none
  | _ => next.head?.filter SlotPc.ofSession

/-- `TotalByteSize` after the step. Nobody reads it in between, so it changes
together with `PacketCount`. -/
def SlotPc.totals (packets : Nat → SendPacket) (total : Nat) : SlotPc → Nat
  | .sendPost _ (.resetCount _) => 0
  | .sendPost _ (.count _ _ _ packet) => (total + (packets packet).val.getPacketSize) % 2 ^ 64
  | .finishSending _ .resetCount => 0
  | _ => total

/-- `outSendingBuffer` after the step. The length of the batch is `dequeuedSize`. -/
def SlotPc.fills (packets : Nat → SendPacket) (out : SendingBuffer) : SlotPc → SendingBuffer
  | .sendPost _ (.count _ i _ packet) =>
      { out with buffers := Function.update out.buffers i (wsaBuf packets packet) }
  | .sendPost _ (.markPosted batch) => { out with bufferSize := batch.length % 2 ^ 32 }
  | _ => out

def SlotPc.appends : SlotPc → List Nat
  | .enqueue _ packet => [packet]
  | _ => []

/-- The steps with which `ReadySending` returns true and `FinishSending` returns. -/
def SlotPc.handsOut : SlotPc → Bool
  | .sendPost _ (.markPosted _) => true
  | _ => false

def SlotPc.finishes : SlotPc → Bool
  | .finishSending _ .clearFlag => true
  | _ => false

/-- A call in progress, and the packets that it has freed so far. -/
structure SessionCall where
  pc : SlotPc
  out : SendingBuffer
  freed : List Nat

/-- The packets that it has freed after a step. -/
def SessionCall.freedBy (c : SessionCall) (e : Effect) : List Nat :=
  c.freed ++ e.refs.filterMap fun r => if r.2 < 0 then some r.1 else none

end Calls

/-- A session and the threads that call it. `inFlight` says that a batch is handed
out and its send is not completed. The lists are records: the packets in the order
of the queue, the batches, and what each `FinishSending` freed next to the batch
that was handed out last. -/
structure Sender (ι : Type) where
  slot : Slot
  totalByteSize : Nat
  calls : ι → Option SessionCall
  inFlight : Bool
  enqueued : List Nat
  batches : List Batch
  finished : List (List Nat × Option Batch)

inductive SenderAction (ι : Type) where
  | enqueue (t : ι) (packet : Nat)
  | readySending (t : ι) (out : SendingBuffer)
  -- the send of the last batch is completed
  | finishSending (t : ι) (out : SendingBuffer)
  | run (t : ι)
  | cancelationIo

namespace Sender

variable {ι : Type} [DecidableEq ι]

/-- What `Init` leaves of a slot. -/
def initial (slot : Slot) : Slot :=
  slot.set { slot.session with
    sendQueue := []
    packetCount := 0
    isSending := 0
    isCloseSocket := false
    isReleased := false }

/-- A session after `Init`. -/
def start (slot : Slot) : Sender ι where
  slot := initial slot
  totalByteSize := 0
  calls _ := none
  inFlight := false
  enqueued := []
  batches := []
  finished := []

/-- A thread calls a function of the session. -/
def call (s : Sender ι) (t : ι) (pc : SlotPc) (out : SendingBuffer) : Sender ι :=
  { s with calls := Function.update s.calls t (some ⟨pc, out, []⟩) }

/-- The state after a step of a call. -/
def after (packets : Nat → SendPacket) (s : Sender ι) (t : ι) (c : SessionCall) (e : Effect) :
    Sender ι :=
  let out := c.pc.fills packets c.out
  let total := c.pc.totals packets s.totalByteSize
  { slot := e.slot
    totalByteSize := total
    calls := Function.update s.calls t ((c.pc.goesOn e.next).map fun pc => ⟨pc, out, c.freedBy e⟩)
    inFlight := s.inFlight || c.pc.handsOut
    enqueued := s.enqueued ++ c.pc.appends
    batches := s.batches ++ if c.pc.handsOut then
      [⟨out, e.slot.session.packetCount, e.slot.session.packetBuffer, total⟩] else []
    finished := s.finished ++ if c.pc.finishes then [(c.freedBy e, s.batches.getLast?)] else [] }

def step (packets : Nat → SendPacket) (s : Sender ι) : SenderAction ι → Option (Sender ι)
  | .enqueue t packet =>
      if (s.calls t).isNone then some (s.call t (.enqueueClosed 0 packet) ⟨fun _ => ⟨0, 0, 0⟩, 0⟩)
      else none
  | .readySending t out =>
      if (s.calls t).isNone then some (s.call t (.sendPost .ioThread .readySending) out) else none
  | .finishSending t out =>
      if (s.calls t).isNone ∧ s.inFlight = true then
        some { s.call t (.finishSending .ioThread .readCount) out with inFlight := false }
      else none
  | .run t => do
      let c ← s.calls t
      let e ← c.pc.step s.slot .ok
      some (s.after packets t c e)
  | .cancelationIo =>
      some { s with slot := s.slot.set { s.slot.session with isCloseSocket := true } }

variable (packets : Nat → SendPacket) (s : Sender ι)

/-- What a session that sends in order does: batches leave in the order of the queue,
nothing is lost, each batch is described twice the same way, and each
`FinishSending` frees the batch that was handed out last, one after the other. -/
structure SendsInOrder : Prop where
  order : s.batches.flatMap Batch.packets <+: s.enqueued
  noLoss : s.slot.session.isSending ≠ 1 →
    s.enqueued = s.batches.flatMap Batch.packets ++ s.slot.session.sendQueue
  describes : ∀ b ∈ s.batches, b.Describes packets
  frees : ∀ f ∈ s.finished, ∃ b, f.2 = some b ∧ f.1 = b.packets
  once : s.finished.map Prod.fst <+: s.batches.map Batch.packets

end Sender

section Holding

/-- The places that hold the flag. -/
def SlotPc.holdsFlag : SlotPc → Bool
  | .sendPost _ .readySending => false
  | .sendPost _ _ | .finishSending _ _ => true
  | _ => false

/-- The packets that are taken from the queue and not handed out. -/
def SlotPc.taken : SlotPc → List Nat
  | .sendPost _ (.dequeue _ _ batch) | .sendPost _ (.checkCount batch)
  | .sendPost _ (.markPosted batch) => batch
  | .sendPost _ (.store _ _ batch packet) | .sendPost _ (.count _ _ batch packet) =>
      batch ++ [packet]
  | _ => []

end Holding

namespace Sender

variable {ι : Type} (packets : Nat → SendPacket) (s : Sender ι)

/-- The batch that is being filled, in the session and in the caller's buffer. -/
structure Fills (out : SendingBuffer) (batch : List Nat) : Prop where
  count : s.slot.session.packetCount = batch.length
  bound : batch.length ≤ maxPacketCountPerSend
  buffer : (List.range batch.length).map s.slot.session.packetBuffer = batch
  out : (List.range batch.length).map out.buffers = batch.map (wsaBuf packets)
  total : s.totalByteSize = (batch.map fun packet => (packets packet).val.getPacketSize).sum

/-- The session still has the batch. -/
structure Keeps (b : Batch) : Prop where
  count : s.slot.session.packetCount = b.packetCount
  buffer : (List.range b.packetCount).map s.slot.session.packetBuffer = b.packets

/-- What the holder of the flag at 1 relies on. -/
def Readies (c : SessionCall) : Prop :=
  match c.pc with
  | .sendPost _ .sampleSize | .sendPost _ .clearFlag => s.slot.session.packetCount = 0
  | .sendPost _ (.resetCount queueSize) => queueSize ≤ maxPacketCountPerSend
  | .sendPost _ (.dequeue queueSize i batch) =>
      i = batch.length ∧ queueSize ≤ maxPacketCountPerSend ∧ s.Fills packets c.out batch
  | .sendPost _ (.store queueSize i batch _) =>
      i = batch.length ∧ i < queueSize ∧ queueSize ≤ maxPacketCountPerSend ∧
        s.Fills packets c.out batch
  | .sendPost _ (.count queueSize i batch packet) =>
      i = batch.length ∧ i < queueSize ∧ queueSize ≤ maxPacketCountPerSend ∧
        s.Fills packets c.out batch ∧ s.slot.session.packetBuffer i = packet
  | .sendPost _ (.checkCount batch) | .sendPost _ (.markPosted batch) => s.Fills packets c.out batch
  | _ => False

/-- What `FinishSending` relies on, for the batch that was handed out last. -/
def Finishes (b : Batch) (c : SessionCall) : Prop :=
  match c.pc with
  | .finishSending _ .readCount => s.Keeps b ∧ c.freed = []
  | .finishSending _ (.free i _) => s.Keeps b ∧ i ≤ b.packetCount ∧ c.freed = b.packets.take i
  | .finishSending _ .resetCount => c.freed = b.packets
  | .finishSending _ .clearFlag => s.slot.session.packetCount = 0 ∧ c.freed = b.packets
  | _ => False

/-- The part that does not depend on who holds the flag: `taken` is what the holder
has in hand, `done` are the batches whose packets are freed. -/
structure Accounts (holder : Option ι) (taken : List Nat) (done : List Batch) : Prop where
  alone : ∀ t c, s.calls t = some c → c.pc.holdsFlag = true → holder = some t
  order : s.enqueued = s.batches.flatMap Batch.packets ++ taken ++ s.slot.session.sendQueue
  describes : ∀ b ∈ s.batches, b.Describes packets
  frees : ∀ f ∈ s.finished, ∃ b, f.2 = some b ∧ f.1 = b.packets
  once : s.finished.map Prod.fst = done.map Batch.packets

/-- Who holds the flag: nobody, a call of `ReadySending` that threw or is running,
a send in flight, or the `FinishSending` after it. -/
inductive Phase : Prop where
  | free (hAccounts : s.Accounts packets none [] s.batches) (hFlag : s.slot.session.isSending = 0)
      (hCount : s.slot.session.packetCount = 0) (hFlight : s.inFlight = false)
  | threw (hAccounts : s.Accounts packets none [] s.batches) (hFlag : s.slot.session.isSending = 1)
      (hFlight : s.inFlight = false)
  | readies (t : ι) (c : SessionCall) (hCall : s.calls t = some c)
      (hAccounts : s.Accounts packets (some t) c.pc.taken s.batches)
      (hFlag : s.slot.session.isSending = 1) (hFlight : s.inFlight = false)
      (hReadies : s.Readies packets c)
  | flies (earlier : List Batch) (b : Batch) (hAccounts : s.Accounts packets none [] earlier)
      (hLast : s.batches = earlier ++ [b]) (hFlag : s.slot.session.isSending = 2)
      (hFlight : s.inFlight = true) (hKeeps : s.Keeps b)
  | finishes (t : ι) (c : SessionCall) (earlier : List Batch) (b : Batch)
      (hCall : s.calls t = some c) (hAccounts : s.Accounts packets (some t) [] earlier)
      (hLast : s.batches = earlier ++ [b]) (hFlag : s.slot.session.isSending = 2)
      (hFlight : s.inFlight = false) (hFinishes : s.Finishes b c)

variable {packets s}

/-- In every phase the session has sent in order so far. -/
theorem Phase.prefixes (h : s.Phase packets) : s.SendsInOrder packets := by
  have hOf : ∀ {holder taken done}, s.Accounts packets holder taken done → done <+: s.batches →
      (s.slot.session.isSending ≠ 1 → taken = []) → s.SendsInOrder packets := by
    intro holder taken done hAccounts hDone hTaken
    constructor
    · rw [hAccounts.order, List.append_assoc]
      exact List.prefix_append _ _
    · intro hFlag
      rw [hAccounts.order, hTaken hFlag, List.append_nil]
    · exact hAccounts.describes
    · exact hAccounts.frees
    · rw [hAccounts.once]
      exact hDone.map _
  cases h with
  | free hAccounts | threw hAccounts => exact hOf hAccounts (List.prefix_refl _) fun _ => rfl
  | readies t c hCall hAccounts hFlag =>
      exact hOf hAccounts (List.prefix_refl _) fun hNot => absurd hFlag hNot
  | flies earlier b hAccounts hLast | finishes t c earlier b hCall hAccounts hLast =>
      exact hOf hAccounts ⟨[b], hLast.symm⟩ fun _ => rfl

/-- A call that fills the batch has the flag. -/
theorem Readies.holds {c : SessionCall} (h : s.Readies packets c) : c.pc.holdsFlag = true := by
  unfold Readies at h
  split at h
  case h_9 => cases h
  all_goals simp [SlotPc.holdsFlag, *]

/-- So has a call that frees one. -/
theorem Finishes.holds {b : Batch} {c : SessionCall} (h : s.Finishes b c) : c.pc.holdsFlag = true := by
  unfold Finishes at h
  split at h
  case h_5 => cases h
  all_goals simp [SlotPc.holdsFlag, *]

/-- Filling is about the count, the packets and the bytes so far. A step that keeps these keeps it. -/
theorem Fills.same {s' : Sender ι} {out : SendingBuffer} {batch : List Nat}
    (h : s.Fills packets out batch)
    (hCount : s'.slot.session.packetCount = s.slot.session.packetCount)
    (hBuffer : s'.slot.session.packetBuffer = s.slot.session.packetBuffer)
    (hTotal : s'.totalByteSize = s.totalByteSize) : s'.Fills packets out batch where
  count := hCount.trans h.count
  bound := h.bound
  buffer := by
    rw [hBuffer]
    exact h.buffer
  out := h.out
  total := hTotal.trans h.total

/-- The same for a batch that has been handed out. -/
theorem Keeps.same {s' : Sender ι} {b : Batch} (h : s.Keeps b)
    (hCount : s'.slot.session.packetCount = s.slot.session.packetCount)
    (hBuffer : s'.slot.session.packetBuffer = s.slot.session.packetBuffer) : s'.Keeps b where
  count := hCount.trans h.count
  buffer := by
    rw [hBuffer]
    exact h.buffer

/-- The packet that `FinishSending` frees next. -/
theorem Keeps.take_succ {b : Batch} (h : s.Keeps b) {i : Nat} (hLess : i < b.packetCount) :
    b.packets.take (i + 1) = b.packets.take i ++ [s.slot.session.packetBuffer i] := by
  have hLength : i < b.packets.length := by
    rw [← h.buffer, List.length_map, List.length_range]
    exact hLess
  rw [List.take_succ_eq_append_getElem hLength]
  simp only [← h.buffer, List.getElem_map, List.getElem_range]

/-- A step beside the holder of the flag: it appends to the queue at most. -/
structure Beside (s s' : Sender ι) (more : List Nat) : Prop where
  isSending : s'.slot.session.isSending = s.slot.session.isSending
  packetCount : s'.slot.session.packetCount = s.slot.session.packetCount
  packetBuffer : s'.slot.session.packetBuffer = s.slot.session.packetBuffer
  totalByteSize : s'.totalByteSize = s.totalByteSize
  sendQueue : s'.slot.session.sendQueue = s.slot.session.sendQueue ++ more
  enqueued : s'.enqueued = s.enqueued ++ more
  inFlight : s'.inFlight = s.inFlight
  batches : s'.batches = s.batches
  finished : s'.finished = s.finished
  holders : ∀ t c, c.pc.holdsFlag = true → (s'.calls t = some c ↔ s.calls t = some c)

section Beside

variable {s' : Sender ι} {more : List Nat} (hBeside : Beside s s' more)

include hBeside

/-- A step of another thread that leaves the sending side alone keeps the accounts. -/
theorem Accounts.beside {holder : Option ι} {taken : List Nat} {done : List Batch}
    (h : s.Accounts packets holder taken done) : s'.Accounts packets holder taken done where
  alone t c hCall hHolds := h.alone t c ((hBeside.holders t c hHolds).mp hCall) hHolds
  order := by
    rw [hBeside.enqueued, hBeside.batches, hBeside.sendQueue, h.order]
    simp only [List.append_assoc]
  describes := by
    rw [hBeside.batches]
    exact h.describes
  frees := by
    rw [hBeside.finished]
    exact h.frees
  once := by
    rw [hBeside.finished]
    exact h.once

/-- And the batch that is being filled. -/
theorem Fills.beside {out : SendingBuffer} {batch : List Nat} (h : s.Fills packets out batch) :
    s'.Fills packets out batch :=
  h.same hBeside.packetCount hBeside.packetBuffer hBeside.totalByteSize

/-- And the batch that was handed out. -/
theorem Keeps.beside {b : Batch} (h : s.Keeps b) : s'.Keeps b :=
  h.same hBeside.packetCount hBeside.packetBuffer

/-- And what the call in `ReadySending` relies on. -/
theorem Readies.beside {c : SessionCall} (h : s.Readies packets c) : s'.Readies packets c := by
  unfold Readies at h ⊢
  rw [hBeside.packetCount, hBeside.packetBuffer]
  split at h
  case h_1 | h_2 | h_3 => exact h
  case h_4 =>
    obtain ⟨hLength, hSize, hFills⟩ := h
    exact ⟨hLength, hSize, hFills.beside hBeside⟩
  case h_5 =>
    obtain ⟨hLength, hLess, hSize, hFills⟩ := h
    exact ⟨hLength, hLess, hSize, hFills.beside hBeside⟩
  case h_6 =>
    obtain ⟨hLength, hLess, hSize, hFills, hStored⟩ := h
    exact ⟨hLength, hLess, hSize, hFills.beside hBeside, hStored⟩
  case h_7 => exact h.beside hBeside
  case h_8 => exact h.beside hBeside
  case h_9 => exact h

/-- And what the call in `FinishSending` relies on. -/
theorem Finishes.beside {b : Batch} {c : SessionCall} (h : s.Finishes b c) : s'.Finishes b c := by
  unfold Finishes at h ⊢
  rw [hBeside.packetCount]
  split at h
  case h_1 => exact ⟨h.1.beside hBeside, h.2⟩
  case h_2 => exact ⟨h.1.beside hBeside, h.2⟩
  all_goals exact h

/-- Whoever has the flag, a step beside it keeps the phase of the sending side. -/
theorem Phase.beside (h : s.Phase packets) : s'.Phase packets := by
  have hFlag := hBeside.isSending
  have hFlight := hBeside.inFlight
  have hBatches := hBeside.batches
  cases h with
  | free hAccounts hZero hCount hNone =>
      have hAccounts := hAccounts.beside hBeside
      rw [← hBatches] at hAccounts
      exact .free hAccounts (hFlag.trans hZero) (hBeside.packetCount.trans hCount)
        (hFlight.trans hNone)
  | threw hAccounts hOne hNone =>
      have hAccounts := hAccounts.beside hBeside
      rw [← hBatches] at hAccounts
      exact .threw hAccounts (hFlag.trans hOne) (hFlight.trans hNone)
  | readies t c hCall hAccounts hOne hNone hReadies =>
      have hAccounts := hAccounts.beside hBeside
      rw [← hBatches] at hAccounts
      exact .readies t c ((hBeside.holders t c hReadies.holds).mpr hCall) hAccounts
        (hFlag.trans hOne) (hFlight.trans hNone) (hReadies.beside hBeside)
  | flies earlier b hAccounts hLast hTwo hSome hKeeps =>
      exact .flies earlier b (hAccounts.beside hBeside) (hBatches.trans hLast) (hFlag.trans hTwo)
        (hFlight.trans hSome) (hKeeps.beside hBeside)
  | finishes t c earlier b hCall hAccounts hLast hTwo hNone hFinishes =>
      exact .finishes t c earlier b ((hBeside.holders t c hFinishes.holds).mpr hCall)
        (hAccounts.beside hBeside) (hBatches.trans hLast) (hFlag.trans hTwo) (hFlight.trans hNone)
        (hFinishes.beside hBeside)

end Beside

section Run

variable [DecidableEq ι] {t : ι} {c : SessionCall} {e : Effect}

/-- The calls after a step of one thread, among those that hold the flag. -/
theorem after_holders (hCall : s.calls t = some c) (hFree : c.pc.holdsFlag = false)
    (hNext : ∀ pc, c.pc.goesOn e.next = some pc → pc.holdsFlag = false) (t' : ι) (c' : SessionCall)
    (hHolds : c'.pc.holdsFlag = true) :
    (s.after packets t c e).calls t' = some c' ↔ s.calls t' = some c' := by
  by_cases ht : t' = t
  · subst ht
    simp only [after, Function.update_self, hCall, Option.map_eq_some_iff, Option.some.injEq]
    constructor
    · rintro ⟨pc, hGoes, rfl⟩
      rw [hNext pc hGoes] at hHolds
      cases hHolds
    · rintro rfl
      rw [hFree] at hHolds
      cases hHolds
  · simp only [after, Function.update_of_ne ht]

/-- A call that does not hold the flag appends at most, or it takes the flag. -/
theorem beside_or_lock (hCall : s.calls t = some c) (hFree : c.pc.holdsFlag = false)
    (hWithin : c.pc.ofSession = true) (hStep : c.pc.step s.slot .ok = some e) :
    (∃ more, Beside s (s.after packets t c e) more) ∨
      ∃ caller, c.pc = .sendPost caller .readySending ∧ s.slot.session.isSending = 0 := by
  obtain ⟨pc, out, freed⟩ := c
  cases pc
  case sendPost caller pc =>
    cases pc
    case readySending =>
      simp only [SlotPc.step, SendPostPc.step, goto, update] at hStep
      split at hStep <;> cases hStep
      · rename_i hZero
        exact .inr ⟨caller, rfl, hZero⟩
      · refine .inl ⟨[], ?_⟩
        constructor
        case holders => exact after_holders hCall hFree (by simp [SlotPc.goesOn, SlotPc.ofSession])
        all_goals simp [after, SlotPc.totals, SlotPc.appends, SlotPc.handsOut, SlotPc.finishes]
    all_goals cases hFree
  case enqueueClosed | enqueueReleased =>
    simp only [SlotPc.step, goto] at hStep
    refine .inl ⟨[], ?_⟩
    split at hStep <;> cases hStep
    all_goals
      constructor
      case holders =>
        exact after_holders hCall hFree (by simp [SlotPc.goesOn, SlotPc.ofSession, SlotPc.holdsFlag])
      all_goals simp [after, SlotPc.totals, SlotPc.appends, SlotPc.handsOut, SlotPc.finishes]
  case addRef =>
    cases hStep
    refine .inl ⟨[], ?_⟩
    constructor
    case holders =>
      exact after_holders hCall hFree (by simp [SlotPc.goesOn, SlotPc.ofSession, SlotPc.holdsFlag])
    all_goals simp [after, SlotPc.totals, SlotPc.appends, SlotPc.handsOut, SlotPc.finishes]
  case enqueue id packet =>
    cases hStep
    refine .inl ⟨[packet], ?_⟩
    constructor
    case holders => exact after_holders hCall hFree (by simp [SlotPc.goesOn])
    all_goals simp [after, SlotPc.totals, SlotPc.appends, SlotPc.handsOut, SlotPc.finishes]
  case finishSending => cases hFree
  all_goals cases hWithin

end Run

/-- No packet is as large as 8192 bytes, so the sum of 300 sizes stays below 2^32. -/
theorem getPacketSize_lt (packets : Nat → SendPacket) (packet : Nat) :
    (packets packet).val.getPacketSize < 2 ^ 13 := by
  have hLe := (packets packet).property.getPacketSize_le
  have hLayout : netLayout.headerSize + netLayout.bodyCapacity = 4101 := rfl
  omega

/-- The buffer of a packet is its header and body, from the start of the header on. -/
theorem wsaBuf_eq (packet : Nat) :
    wsaBuf packets packet = ⟨packet, 0, (packets packet).val.getPacketSize⟩ := by
  have hLess := getPacketSize_lt packets packet
  rw [wsaBuf, Nat.mod_eq_of_lt (by omega)]

/-- A batch begins empty, with the count and the byte size at zero. -/
theorem Fills.empty {out : SendingBuffer} (hCount : s.slot.session.packetCount = 0)
    (hTotal : s.totalByteSize = 0) : s.Fills packets out [] where
  count := hCount
  bound := Nat.zero_le _
  buffer := rfl
  out := rfl
  total := hTotal

/-- Storing a packet behind the batch leaves the batch alone. -/
theorem Fills.store {s' : Sender ι} {out : SendingBuffer} {batch : List Nat} {packet : Nat}
    (h : s.Fills packets out batch)
    (hCount : s'.slot.session.packetCount = s.slot.session.packetCount)
    (hBuffer : s'.slot.session.packetBuffer = fun j =>
      if j = s.slot.session.packetCount then packet else s.slot.session.packetBuffer j)
    (hTotal : s'.totalByteSize = s.totalByteSize) : s'.Fills packets out batch := by
  refine ⟨hCount.trans h.count, h.bound, ?_, h.out, hTotal.trans h.total⟩
  rw [hBuffer]
  refine (List.map_congr_left fun j hj => ?_).trans h.buffer
  have hLess := List.mem_range.mp hj
  have hCount := h.count
  rw [if_neg (by omega)]

/-- Counting the packet that is stored behind the batch adds it to the batch. -/
theorem Fills.count_stored {s' : Sender ι} {out : SendingBuffer} {batch : List Nat} {packet : Nat}
    (h : s.Fills packets out batch) (hStored : s.slot.session.packetBuffer batch.length = packet)
    (hLess : batch.length < maxPacketCountPerSend)
    (hCount : s'.slot.session.packetCount = s.slot.session.packetCount + 1)
    (hBuffer : s'.slot.session.packetBuffer = s.slot.session.packetBuffer)
    (hTotal : s'.totalByteSize =
      (s.totalByteSize + (packets packet).val.getPacketSize) % 2 ^ 64) :
    s'.Fills packets
      { out with buffers := Function.update out.buffers batch.length (wsaBuf packets packet) }
      (batch ++ [packet]) := by
  have hSum : (batch.map fun packet => (packets packet).val.getPacketSize).sum ≤
      batch.length * 2 ^ 13 := by
    have hSum := List.sum_le_card_nsmul
      (batch.map fun packet => (packets packet).val.getPacketSize) (2 ^ 13) (by
        intro size hSize
        obtain ⟨packet, _, rfl⟩ := List.mem_map.mp hSize
        exact (getPacketSize_lt packets packet).le)
    rwa [List.length_map, smul_eq_mul] at hSum
  have hBound : maxPacketCountPerSend = 300 := rfl
  have hSize := getPacketSize_lt packets packet
  constructor
  · rw [hCount, h.count, List.length_append, List.length_singleton]
  · rw [List.length_append, List.length_singleton]
    exact hLess
  · rw [hBuffer, List.length_append, List.length_singleton, List.range_succ, List.map_append,
      h.buffer, List.map_singleton, hStored]
  · rw [List.length_append, List.length_singleton, List.range_succ, List.map_append,
      List.map_append, ← h.out]
    congr 1
    · refine List.map_congr_left fun j hj => ?_
      have hLess := List.mem_range.mp hj
      exact Function.update_of_ne (by omega) _ _
    · simp
  · rw [hTotal, h.total, List.map_append, List.sum_append, List.map_singleton, List.sum_singleton]
    exact Nat.mod_eq_of_lt (by omega)

/-- A filled batch is described twice the same way. -/
theorem Fills.describes {out : SendingBuffer} {batch : List Nat} (h : s.Fills packets out batch) :
    Batch.Describes packets
      ⟨{ out with bufferSize := batch.length % 2 ^ 32 }, s.slot.session.packetCount,
        s.slot.session.packetBuffer, s.totalByteSize⟩ ∧
      (List.range s.slot.session.packetCount).map s.slot.session.packetBuffer = batch := by
  have hBound : batch.length ≤ 300 := h.bound
  have hBuffers : ∀ i < batch.length, out.buffers i =
      ⟨s.slot.session.packetBuffer i, 0,
        (packets (s.slot.session.packetBuffer i)).val.getPacketSize⟩ := by
    intro i hi
    have hOut := h.out
    rw [← h.buffer, List.length_map, List.length_range, List.map_map, List.map_inj_left] at hOut
    rw [hOut i (List.mem_range.mpr hi), Function.comp_apply, wsaBuf_eq]
  rw [h.count]
  refine ⟨⟨Nat.mod_eq_of_lt (by omega), hBuffers, ?_⟩, h.buffer⟩
  have hTotal := h.total
  rw [← h.buffer, List.map_map] at hTotal
  rw [hTotal]
  refine congrArg List.sum (List.map_congr_left fun i hi => ?_)
  simp only [hBuffers i (List.mem_range.mp hi), Function.comp_apply]

section Holder

variable [DecidableEq ι] {t : ι} {c : SessionCall} {e : Effect} {taken taken' : List Nat}
  {done : List Batch}

/-- A call that goes on within the session keeps what it has filled and freed. -/
theorem after_calls_self {pc' : SlotPc} (hGoes : c.pc.goesOn e.next = some pc') :
    (s.after packets t c e).calls t = some ⟨pc', c.pc.fills packets c.out, c.freedBy e⟩ := by
  simp [after, hGoes]

/-- A call that leaves the session's code is over. -/
theorem after_calls_none (hGoes : c.pc.goesOn e.next = none) :
    (s.after packets t c e).calls t = none := by
  simp [after, hGoes]

/-- Only the step that hands a batch out adds one to the record. -/
theorem after_batches (hHandsOut : c.pc.handsOut = false) :
    (s.after packets t c e).batches = s.batches := by
  simp [after, hHandsOut]

/-- The same for the batch in flight. -/
theorem after_inFlight (hHandsOut : c.pc.handsOut = false) :
    (s.after packets t c e).inFlight = s.inFlight := by
  simp [after, hHandsOut]

/-- A call that holds the flag moves packets from the queue to its hand. -/
theorem Accounts.holder {holder : Option ι} (h : s.Accounts packets holder taken done)
    (hHolder : holder = none ∨ holder = some t)
    (hAppends : c.pc.appends = []) (hHandsOut : c.pc.handsOut = false)
    (hFinishes : c.pc.finishes = false)
    (hQueue : taken' ++ e.slot.session.sendQueue = taken ++ s.slot.session.sendQueue) :
    (s.after packets t c e).Accounts packets (some t) taken' done where
  alone t' c' hCall hHolds := by
    by_cases ht : t' = t
    · rw [ht]
    · simp only [after, Function.update_of_ne ht] at hCall
      have hAlone := h.alone t' c' hCall hHolds
      rcases hHolder with rfl | rfl
      · cases hAlone
      · exact hAlone
  order := by
    simp only [after, hAppends, hHandsOut, Bool.false_eq_true, if_false, List.append_nil]
    rw [List.append_assoc, hQueue, ← List.append_assoc, ← h.order]
  describes := by
    rw [after_batches hHandsOut]
    exact h.describes
  frees := by
    simp only [after, hFinishes, Bool.false_eq_true, if_false, List.append_nil]
    exact h.frees
  once := by
    simp only [after, hFinishes, Bool.false_eq_true, if_false, List.append_nil]
    exact h.once

/-- The holder returns with nothing in its hand. -/
theorem Accounts.returned (h : s.Accounts packets (some t) taken s.batches)
    (hAppends : c.pc.appends = []) (hHandsOut : c.pc.handsOut = false)
    (hFinishes : c.pc.finishes = false) (hGoes : c.pc.goesOn e.next = none)
    (hQueue : e.slot.session.sendQueue = taken ++ s.slot.session.sendQueue) :
    (s.after packets t c e).Accounts packets none [] (s.after packets t c e).batches := by
  have hHolder : (s.after packets t c e).Accounts packets (some t) [] s.batches :=
    h.holder (.inr rfl) hAppends hHandsOut hFinishes hQueue
  rw [after_batches hHandsOut]
  refine { hHolder with alone := ?_ }
  intro t' c' hCall hHolds
  cases hHolder.alone t' c' hCall hHolds
  rw [after_calls_none hGoes] at hCall
  cases hCall

/-- `ReadySending` goes on. -/
theorem Phase.readies_on {holder : Option ι} {pc' : SlotPc}
    (h : s.Accounts packets holder taken s.batches) (hHolder : holder = none ∨ holder = some t)
    (hAppends : c.pc.appends = []) (hHandsOut : c.pc.handsOut = false)
    (hFinishes : c.pc.finishes = false) (hGoes : c.pc.goesOn e.next = some pc')
    (hQueue : pc'.taken ++ e.slot.session.sendQueue = taken ++ s.slot.session.sendQueue)
    (hFlag : e.slot.session.isSending = 1) (hFlight : s.inFlight = false)
    (hReadies : (s.after packets t c e).Readies packets
      ⟨pc', c.pc.fills packets c.out, c.freedBy e⟩) : (s.after packets t c e).Phase packets := by
  refine .readies t _ (after_calls_self hGoes) ?_ hFlag ((after_inFlight hHandsOut).trans hFlight)
    hReadies
  rw [after_batches hHandsOut]
  exact h.holder hHolder hAppends hHandsOut hFinishes hQueue

/-- The exchange that finds 0 takes the flag, and the batch it is going to fill is empty. -/
theorem Phase.lock (h : s.Phase packets) {caller : SendCaller}
    (hPc : c.pc = .sendPost caller .readySending) (hFree : s.slot.session.isSending = 0)
    (hStep : c.pc.step s.slot .ok = some e) : (s.after packets t c e).Phase packets := by
  obtain ⟨pc, out, freed⟩ := c
  cases hPc
  simp only [SlotPc.step, SendPostPc.step, if_pos hFree, update] at hStep
  cases hStep
  cases h with
  | free hAccounts _ hCount hFlight =>
      exact .readies_on hAccounts (.inl rfl) rfl rfl rfl rfl rfl rfl hFlight hCount
  | threw _ hFlag | readies _ _ _ _ hFlag | flies _ _ _ _ hFlag | finishes _ _ _ _ _ _ _ hFlag =>
      rw [hFlag] at hFree
      cases hFree

/-- `ReadySending` returns true. -/
theorem Phase.handOut {caller : SendCaller} {batch freed : List Nat} {out : SendingBuffer}
    (h : s.Accounts packets (some t) batch s.batches) (hFlag : s.slot.session.isSending = 1)
    (hFills : s.Fills packets out batch) :
    (s.after packets t ⟨.sendPost caller (.markPosted batch), out, freed⟩
      ⟨s.slot.set (s.slot.session.exchangeSending 2 1), [.sendPost caller (.increment batch)], none,
        false, false, 0, []⟩).Phase packets := by
  obtain ⟨hDescribes, hPackets⟩ := hFills.describes
  have hSession : s.slot.session.exchangeSending 2 1 = { s.slot.session with isSending := 2 } :=
    if_pos hFlag
  rw [hSession]
  refine .flies s.batches ⟨{ out with bufferSize := batch.length % 2 ^ 32 },
    s.slot.session.packetCount, s.slot.session.packetBuffer, s.totalByteSize⟩ ?_ rfl rfl
    (by simp [after, SlotPc.handsOut]) ⟨rfl, rfl⟩
  constructor
  case alone =>
    intro t' c' hCall hHolds
    by_cases ht : t' = t
    · rw [ht, after_calls_none rfl] at hCall
      cases hCall
    · simp only [after, Function.update_of_ne ht] at hCall
      cases h.alone t' c' hCall hHolds
      exact absurd rfl ht
  case order =>
    have hOrder := h.order
    simp [after, SlotPc.handsOut, SlotPc.appends, SlotPc.totals, SlotPc.fills, Batch.packets,
      hPackets] at hOrder ⊢
    exact hOrder
  case describes =>
    intro b hMem
    rcases List.mem_append.mp hMem with hOld | hNew
    · exact h.describes b hOld
    · cases List.mem_singleton.mp hNew
      exact hDescribes
  case frees =>
    simp only [after, SlotPc.finishes, Bool.false_eq_true, if_false, List.append_nil]
    exact h.frees
  case once =>
    simp only [after, SlotPc.finishes, Bool.false_eq_true, if_false, List.append_nil]
    exact h.once

/-- A step of the call of `ReadySending` that holds the flag. -/
theorem Phase.readies_step (hAccounts : s.Accounts packets (some t) c.pc.taken s.batches)
    (hFlag : s.slot.session.isSending = 1) (hFlight : s.inFlight = false)
    (hReadies : s.Readies packets c) (hStep : c.pc.step s.slot .ok = some e) :
    (s.after packets t c e).Phase packets := by
  obtain ⟨pc, out, freed⟩ := c
  cases pc
  case sendPost caller pc =>
    cases pc
    case sampleSize =>
      simp only [SlotPc.step, SendPostPc.step, goto] at hStep
      split at hStep <;> [skip; split at hStep] <;> cases hStep
      · exact .threw (hAccounts.returned rfl rfl rfl rfl rfl) hFlag ((after_inFlight rfl).trans hFlight)
      · exact .readies_on hAccounts (.inr rfl) rfl rfl rfl rfl rfl hFlag hFlight hReadies
      · rename_i hFits _
        exact .readies_on hAccounts (.inr rfl) rfl rfl rfl rfl rfl hFlag hFlight (Nat.not_lt.mp hFits)
    case clearFlag =>
      cases hStep
      have hZero : s.slot.session.packetCount = 0 := hReadies
      refine .free (hAccounts.returned rfl rfl rfl rfl ?_) ?_ ?_ ((after_inFlight rfl).trans hFlight)
      · simp [SlotPc.taken]
      · simp [after, NetSession.exchangeSending, hFlag]
      · simp [after, NetSession.exchangeSending, hFlag, hZero]
    case resetCount queueSize =>
      cases hStep
      refine .readies_on hAccounts (.inr rfl) rfl rfl rfl rfl rfl hFlag hFlight ?_
      exact ⟨rfl, hReadies, .empty rfl rfl⟩
    case dequeue queueSize i batch =>
      obtain ⟨rfl, hSize, hFills⟩ := hReadies
      simp only [SlotPc.step, SendPostPc.step, goto, update] at hStep
      split at hStep
      · rename_i hLess
        split at hStep <;> cases hStep
        · exact .readies_on hAccounts (.inr rfl) rfl rfl rfl rfl rfl hFlag hFlight
            (hFills.same rfl rfl rfl)
        · rename_i packet sendQueue hQueue
          refine .readies_on hAccounts (.inr rfl) rfl rfl rfl rfl ?_ hFlag hFlight ?_
          · simp [SlotPc.taken, hQueue]
          · exact ⟨rfl, hLess, hSize, hFills.same rfl rfl rfl⟩
      · cases hStep
        exact .readies_on hAccounts (.inr rfl) rfl rfl rfl rfl rfl hFlag hFlight
            (hFills.same rfl rfl rfl)
    case store queueSize i batch packet =>
      cases hStep
      obtain ⟨rfl, hLess, hSize, hFills⟩ := hReadies
      refine .readies_on hAccounts (.inr rfl) rfl rfl rfl rfl rfl hFlag hFlight ?_
      exact ⟨rfl, hLess, hSize, hFills.store rfl rfl rfl, if_pos hFills.count.symm⟩
    case count queueSize i batch packet =>
      cases hStep
      obtain ⟨rfl, hLess, hSize, hFills, hStored⟩ := hReadies
      refine .readies_on hAccounts (.inr rfl) rfl rfl rfl rfl rfl hFlag hFlight ?_
      refine ⟨?_, hSize, hFills.count_stored hStored (by omega) rfl rfl rfl⟩
      rw [List.length_append, List.length_singleton]
    case checkCount batch =>
      have hFills : s.Fills packets out batch := hReadies
      simp only [SlotPc.step, SendPostPc.step, goto] at hStep
      split at hStep <;> cases hStep
      · rename_i hZero
        have hEmpty : batch = [] := List.length_eq_zero_iff.mp (hFills.count.symm.trans hZero)
        subst hEmpty
        exact .readies_on hAccounts (.inr rfl) rfl rfl rfl rfl rfl hFlag hFlight hZero
      · exact .readies_on hAccounts (.inr rfl) rfl rfl rfl rfl rfl hFlag hFlight
          (hFills.same rfl rfl rfl)
    case markPosted batch =>
      cases hStep
      exact .handOut hAccounts hFlag hReadies
    all_goals cases hReadies
  all_goals cases hReadies

/-- `FinishSending` goes on. -/
theorem Phase.finishes_on {earlier : List Batch} {b : Batch} {pc' : SlotPc}
    (h : s.Accounts packets (some t) [] earlier) (hLast : s.batches = earlier ++ [b])
    (hAppends : c.pc.appends = []) (hHandsOut : c.pc.handsOut = false)
    (hFinishes : c.pc.finishes = false) (hGoes : c.pc.goesOn e.next = some pc')
    (hQueue : e.slot.session.sendQueue = s.slot.session.sendQueue)
    (hFlag : e.slot.session.isSending = 2) (hFlight : s.inFlight = false)
    (hFinishes : (s.after packets t c e).Finishes b
      ⟨pc', c.pc.fills packets c.out, c.freedBy e⟩) : (s.after packets t c e).Phase packets := by
  refine .finishes t _ earlier b (after_calls_self hGoes) ?_ ((after_batches hHandsOut).trans hLast)
    hFlag ((after_inFlight hHandsOut).trans hFlight) hFinishes
  exact h.holder (.inr rfl) hAppends hHandsOut ‹_› hQueue

/-- `FinishSending` returns. -/
theorem Phase.finish {caller : FinishCaller} {earlier : List Batch} {b : Batch} {freed : List Nat}
    {out : SendingBuffer} {next : List SlotPc} (h : s.Accounts packets (some t) [] earlier)
    (hLast : s.batches = earlier ++ [b]) (hFlag : s.slot.session.isSending = 2)
    (hFlight : s.inFlight = false) (hCount : s.slot.session.packetCount = 0)
    (hFreed : freed = b.packets) (hNext : next.head?.filter SlotPc.ofSession = none) :
    (s.after packets t ⟨.finishSending caller .clearFlag, out, freed⟩
      ⟨s.slot.set (s.slot.session.exchangeSending 0 2), next, none, false, false, 0, []⟩).Phase
        packets := by
  have hSession : s.slot.session.exchangeSending 0 2 = { s.slot.session with isSending := 0 } :=
    if_pos hFlag
  have hRecord : SessionCall.freedBy ⟨.finishSending caller .clearFlag, out, freed⟩
      ⟨s.slot.set { s.slot.session with isSending := 0 }, next, none, false, false, 0, []⟩ =
      b.packets := by
    simp [SessionCall.freedBy, hFreed]
  rw [hSession]
  refine .free ?_ rfl hCount ((after_inFlight rfl).trans hFlight)
  rw [after_batches rfl]
  constructor
  case alone =>
    intro t' c' hCall hHolds
    by_cases ht : t' = t
    · simp [after, ht, SlotPc.goesOn, hNext] at hCall
    · simp only [after, Function.update_of_ne ht] at hCall
      cases h.alone t' c' hCall hHolds
      exact absurd rfl ht
  case order =>
    have hOrder := h.order
    rw [after_batches rfl]
    simpa [after, SlotPc.appends] using hOrder
  case describes =>
    rw [after_batches rfl]
    exact h.describes
  case frees =>
    simp only [after, SlotPc.finishes, if_true, hRecord]
    intro f hMem
    rcases List.mem_append.mp hMem with hOld | hNew
    · exact h.frees f hOld
    · cases List.mem_singleton.mp hNew
      exact ⟨b, by rw [hLast, List.getLast?_concat], rfl⟩
  case once =>
    simp only [after, SlotPc.finishes, if_true, hRecord]
    rw [List.map_append, h.once, hLast, List.map_append, List.map_singleton, List.map_singleton]

/-- A step of `FinishSending`. -/
theorem Phase.finishes_step {earlier : List Batch} {b : Batch}
    (hAccounts : s.Accounts packets (some t) [] earlier) (hLast : s.batches = earlier ++ [b])
    (hFlag : s.slot.session.isSending = 2) (hFlight : s.inFlight = false)
    (hFinishes : s.Finishes b c) (hStep : c.pc.step s.slot .ok = some e) :
    (s.after packets t c e).Phase packets := by
  obtain ⟨pc, out, freed⟩ := c
  cases pc
  case finishSending caller pc =>
    cases pc
    case readCount =>
      cases hStep
      obtain ⟨hKeeps, hFreed⟩ := hFinishes
      refine .finishes_on hAccounts hLast rfl rfl rfl rfl rfl hFlag hFlight ?_
      refine ⟨hKeeps.same rfl rfl, Nat.zero_le _, ?_⟩
      simpa [SessionCall.freedBy] using hFreed
    case free i packetCount =>
      obtain ⟨hKeeps, hLe, hFreed⟩ := hFinishes
      have hCount := hKeeps.count
      simp only at hFreed
      simp only [SlotPc.step, FinishPc.step, goto] at hStep
      split at hStep <;> cases hStep
      · rename_i hLess
        refine .finishes_on hAccounts hLast rfl rfl rfl rfl rfl hFlag hFlight ?_
        refine ⟨hKeeps.same rfl rfl, by omega, ?_⟩
        rw [hKeeps.take_succ (by omega), ← hFreed]
        simp [SessionCall.freedBy]
      · refine .finishes_on hAccounts hLast rfl rfl rfl rfl rfl hFlag hFlight ?_
        have hAll : b.packets.take i = b.packets := by
          rw [List.take_of_length_le]
          simp [Batch.packets]
          omega
        rw [hAll] at hFreed
        simpa [Finishes, SessionCall.freedBy] using hFreed
    case resetCount =>
      cases hStep
      have hFreed : freed = b.packets := hFinishes
      refine .finishes_on hAccounts hLast rfl rfl rfl rfl rfl hFlag hFlight ⟨rfl, ?_⟩
      simpa [SessionCall.freedBy] using hFreed
    case clearFlag =>
      cases hStep
      obtain ⟨hCount, hFreed⟩ := hFinishes
      refine .finish hAccounts hLast hFlag hFlight hCount hFreed ?_
      cases caller <;> rfl
  all_goals cases hFinishes

/-- Any step of a call keeps the phase of the sending side: the kinds of steps are told apart by
what they do with the flag. -/
theorem Phase.run (h : s.Phase packets) (hWithin : c.pc.ofSession = true)
    (hCall : s.calls t = some c) (hStep : c.pc.step s.slot .ok = some e) :
    (s.after packets t c e).Phase packets := by
  cases hHolds : c.pc.holdsFlag with
  | false =>
      rcases beside_or_lock hCall hHolds hWithin hStep with ⟨more, hBeside⟩ | ⟨caller, hPc, hFree⟩
      · exact h.beside hBeside
      · exact h.lock hPc hFree hStep
  | true =>
      cases h with
      | free hAccounts | threw hAccounts | flies _ _ hAccounts =>
          cases hAccounts.alone t c hCall hHolds
      | readies t' c' hCall' hAccounts hFlag hFlight hReadies =>
          cases hAccounts.alone t c hCall hHolds
          rw [hCall] at hCall'
          cases hCall'
          exact .readies_step hAccounts hFlag hFlight hReadies hStep
      | finishes t' c' earlier b hCall' hAccounts hLast hFlag hFlight hFinishes =>
          cases hAccounts.alone t c hCall hHolds
          rw [hCall] at hCall'
          cases hCall'
          exact .finishes_step hAccounts hLast hFlag hFlight hFinishes hStep

end Holder

section Runs

variable [DecidableEq ι] {s' : Sender ι} {a : SenderAction ι}

/-- In every run: the phase, and that every call is at a place of its function. -/
structure Ordered (packets : Nat → SendPacket) (s : Sender ι) : Prop where
  phase : s.Phase packets
  within : ∀ t c, s.calls t = some c → c.pc.ofSession = true

omit [DecidableEq ι] in
/-- Before the first call nothing is queued, filled or in flight. -/
theorem ordered_start (slot : Slot) : (start slot : Sender ι).Ordered packets where
  phase := by
    refine .free ?_ rfl rfl rfl
    constructor
    · intro t c hCall
      cases hCall
    · rfl
    · intro b hMem
      cases hMem
    · intro f hMem
      cases hMem
    · rfl
  within := by
    intro t c hCall
    cases hCall

/-- Calling `Enqueue` or `ReadySending` is beside the holder of the flag. -/
theorem beside_call {t : ι} {pc : SlotPc} {out : SendingBuffer} (hIdle : s.calls t = none)
    (hFree : pc.holdsFlag = false) : Beside s (s.call t pc out) [] := by
  constructor
  case holders =>
    intro t' c hHolds
    by_cases ht : t' = t
    · simp only [call, ht, Function.update_self, hIdle, Option.some.injEq, reduceCtorEq, iff_false]
      rintro rfl
      rw [hFree] at hHolds
      cases hHolds
    · simp only [call, Function.update_of_ne ht]
  case sendQueue | enqueued => exact (List.append_nil _).symm
  all_goals rfl

/-- Calls enter the sending code at places of the session. -/
theorem within_call {t : ι} {pc : SlotPc} {out : SendingBuffer}
    (h : ∀ t c, s.calls t = some c → c.pc.ofSession = true) (hPc : pc.ofSession = true) :
    ∀ t' c, (s.call t pc out).calls t' = some c → c.pc.ofSession = true := by
  intro t' c hCall
  by_cases ht : t' = t
  · simp only [call, ht, Function.update_self, Option.some.injEq] at hCall
    rw [← hCall]
    exact hPc
  · simp only [call, Function.update_of_ne ht] at hCall
    exact h t' c hCall

/-- And stay there until they leave it. -/
theorem within_after {t : ι} {c : SessionCall} {e : Effect}
    (h : ∀ t c, s.calls t = some c → c.pc.ofSession = true) :
    ∀ t' c', (s.after packets t c e).calls t' = some c' → c'.pc.ofSession = true := by
  intro t' c' hCall
  by_cases ht : t' = t
  · simp only [after, ht, Function.update_self, Option.map_eq_some_iff] at hCall
    obtain ⟨pc, hGoes, rfl⟩ := hCall
    unfold SlotPc.goesOn at hGoes
    split at hGoes
    · cases hGoes
    · exact (Option.filter_eq_some_iff.mp hGoes).2
  · simp only [after, Function.update_of_ne ht] at hCall
    exact h t' c' hCall

/-- The completed send is finished by a thread that calls `FinishSending`. -/
theorem Phase.completed {t : ι} {out : SendingBuffer} (h : s.Phase packets)
    (hFlight : s.inFlight = true) :
    Phase packets { s.call t (.finishSending .ioThread .readCount) out with inFlight := false } := by
  cases h with
  | free _ _ _ hNone | threw _ _ hNone | readies _ _ _ _ _ hNone | finishes _ _ _ _ _ _ _ _ hNone =>
      rw [hFlight] at hNone
      cases hNone
  | flies earlier b hAccounts hLast hFlag _ hKeeps =>
      refine .finishes t _ earlier b (Function.update_self ..) ?_ hLast hFlag rfl
        ⟨hKeeps.same rfl rfl, rfl⟩
      refine { hAccounts with alone := ?_ }
      intro t' c hCall hHolds
      by_cases ht : t' = t
      · rw [ht]
      · simp only [call, Function.update_of_ne ht] at hCall
        cases hAccounts.alone t' c hCall hHolds

/-- Every access of every thread keeps the order, other threads' accesses in between included. -/
theorem Ordered.step (h : s.Ordered packets) (hStep : s.step packets a = some s') :
    s'.Ordered packets := by
  obtain ⟨hPhase, hWithin⟩ := h
  cases a with
  | enqueue t packet =>
      simp only [Sender.step] at hStep
      split at hStep <;> cases hStep
      rename_i hIdle
      exact ⟨hPhase.beside (beside_call (Option.isNone_iff_eq_none.mp hIdle) rfl),
        within_call hWithin rfl⟩
  | readySending t out =>
      simp only [Sender.step] at hStep
      split at hStep <;> cases hStep
      rename_i hIdle
      exact ⟨hPhase.beside (beside_call (Option.isNone_iff_eq_none.mp hIdle) rfl),
        within_call hWithin rfl⟩
  | finishSending t out =>
      simp only [Sender.step] at hStep
      split at hStep <;> cases hStep
      rename_i hIdle
      exact ⟨hPhase.completed hIdle.2, within_call (s := s) hWithin rfl⟩
  | run t =>
      simp only [Sender.step, Option.bind_eq_bind, Option.bind_eq_some_iff, Option.some.injEq]
        at hStep
      obtain ⟨c, hCall, e, hEffect, rfl⟩ := hStep
      exact ⟨hPhase.run (hWithin t c hCall) hCall hEffect, within_after hWithin⟩
  | cancelationIo =>
      cases hStep
      have hBeside : Beside s
          { s with slot := s.slot.set { s.slot.session with isCloseSocket := true } } [] := by
        constructor
        case sendQueue | enqueued => exact (List.append_nil _).symm
        case holders => exact fun _ _ _ => Iff.rfl
        all_goals rfl
      exact ⟨hPhase.beside hBeside, hWithin⟩

/-- In every run from a session after `Init`, the session sends in order. -/
theorem sendsInOrder (packets : Nat → SendPacket) (slot : Slot) {s : Sender ι}
    (h : Reachable (Takes (Sender.step packets)) (fun _ _ => True) (start slot) s) :
    s.SendsInOrder packets := by
  have hOrdered : s.Ordered packets :=
    h.invariant (ordered_start slot) fun _ hOrdered _ hStep => hOrdered.step hStep
  exact hOrdered.phase.prefixes

end Runs

/-- The length of a packet's storage. -/
theorem length_emptyMemory : (List.replicate 4101 (0 : UInt8)).length = 4101 :=
  List.length_replicate

/-- A packet without a body. -/
def emptyPacket : SendPacket :=
  ⟨.initial ⟨List.replicate 4101 0, length_emptyMemory⟩, _, _, _, Packet.initial_holds _⟩

/-- Two threads: a packet is appended while the other thread fills its batch. -/
def twoThreads : List (SenderAction (Fin 2)) :=
  List.flatten [.enqueue 0 7 :: List.replicate 3 (.run 0),
    .readySending 0 ⟨fun _ => ⟨0, 0, 0⟩, 0⟩ :: List.replicate 3 (.run 0),
    .enqueue 1 8 :: List.replicate 3 (.run 1), List.replicate 6 (.run 0),
    .finishSending 1 ⟨fun _ => ⟨0, 0, 0⟩, 0⟩ :: List.replicate 5 (.run 1)]

/-- Two threads that send at once; the second packet waits for the first to complete. -/
theorem sendsInOrder_twoThreads :
    ∃ s : Sender (Fin 2), s.SendsInOrder (fun _ => emptyPacket) ∧ s.enqueued = [7, 8] ∧
      s.batches.map Batch.packets = [[7]] ∧ s.finished.map Prod.fst = [[7]] := by
  have hRun : (exec (Sender.step fun _ => emptyPacket) (start ⟨.new 0, 0, 0⟩) twoThreads).map
      (fun s : Sender (Fin 2) => decide (s.enqueued = [7, 8] ∧
        s.batches.map Batch.packets = [[7]] ∧ s.finished.map Prod.fst = [[7]])) = some true := by
    decide +kernel
  obtain ⟨s, hExec, hState⟩ := Option.map_eq_some_iff.mp hRun
  exact ⟨s, sendsInOrder _ ⟨.new 0, 0, 0⟩ (reachable_of_exec hExec), of_decide_eq_true hState⟩

end Sender

end NfNetwork.Net
