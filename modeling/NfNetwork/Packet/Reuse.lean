import NfNetwork.Packet.Serialisation

/-! A packet that is cleared and written again. `ClearBuffer` resets the cursors and leaves
`mIsEncoded`, so a packet that was sent before is never encoded again. -/
namespace NfNetwork

open Machinery

namespace Packet

variable {layout : Layout}

def clearBuffer (p : Packet layout) : Packet layout :=
  { p with readPos := p.bodyBegin, writePos := p.bodyBegin }

end Packet

/-- A call on a packet that is used again and again; `rand` is what `rand()` returns. -/
inductive PacketUse where
  | call (c : PacketCall)
  | encodeOnce (code key : UInt8) (rand : Nat)
  | clearBuffer

/-- Whether the call is an `EncodeOnce`. -/
def PacketUse.encodes : PacketUse → Bool
  | .encodeOnce .. => true
  | _ => false

namespace Packet

variable {layout : Layout}

def use (p : Packet layout) : PacketUse → Option (Packet layout)
  | .call c => (p.call c).map Prod.snd
  | .encodeOnce code key rand => (p.encodeOnce code key rand).map Prod.snd
  | .clearBuffer => some p.clearBuffer

/-- `EncodeOnce` answers, and however often it is called again it changes no byte. -/
def EncodesOnce (p : Packet layout) : Prop :=
  ∀ code key rand, ∃ fresh encoded, p.encodeOnce code key rand = some (fresh, encoded) ∧
    ∀ again : List PacketUse, (∀ u ∈ again, u.encodes = true) → exec use encoded again = some encoded

/-- Cleared and written in whatever way, the packet is encoded into a frame: its header carries the
length of the new body, and `DoDecode` accepts it and recovers that body. -/
def GoodAsNew (p : Packet layout) : Prop :=
  ∀ (writes : List PacketCall) (code key : UInt8) (rand : Nat), ∃ written fresh encoded decoded,
    exec use p.clearBuffer (writes.map .call) = some written ∧
    written.encodeOnce code key rand = some (fresh, encoded) ∧
    readUInt16 encoded.wireBytes 1 = written.getBodySize ∧
    encoded.doDecode key (encoded.wireBytes.getD 3 0) = some (true, decoded) ∧
    decoded.body = written.body

/-- The cursors and the size of the memory are in order, whatever the bytes. -/
structure Shaped (p : Packet layout) : Prop where
  total : p.buffer.length = layout.headerSize + layout.bodyCapacity
  bodyBegin : p.bodyBegin = layout.headerSize
  encodeBegin : p.encodeBegin = layout.headerSize - 1
  bodyEnd : p.bodyEnd = layout.bodyCapacity
  read : layout.headerSize ≤ p.readPos ∧ p.readPos ≤ p.writePos
  write : p.writePos ≤ layout.bodyCapacity

section Uses

variable {p p' : Packet layout}

theorem Shaped.holds (h : p.Shaped) :
    Holds p (p.buffer.take layout.headerSize) p.body (p.buffer.drop p.writePos) where
  buffer := by
    have hEnd : layout.headerSize + p.getBodySize = p.writePos := by
      rw [getBodySize, h.bodyBegin]
      have hRead := h.read
      omega
    rw [body, h.bodyBegin, ← List.take_add, hEnd, List.take_append_drop]
  header_length := by
    rw [List.length_take, h.total]
    omega
  total := h.total
  bodyBegin := h.bodyBegin
  encodeBegin := h.encodeBegin
  bodyEnd := h.bodyEnd
  writePos := by
    have hRead := h.read
    have hWrite := h.write
    rw [body, getBodySize, h.bodyBegin, List.length_take, List.length_drop, h.total]
    omega

/-- Seen from now on, the bytes that are there are those of a fresh packet. -/
theorem Shaped.streams (h : p.Shaped) : ∃ done left, p.Streams ⟨p.buffer, h.total⟩ done left := by
  have hHolds := h.holds
  have hRead := h.read
  have hWrite := h.write
  have hLength : p.writePos = layout.headerSize + p.body.length := hHolds.writePos
  refine ⟨p.body.take (p.readPos - layout.headerSize), p.body.drop (p.readPos - layout.headerSize),
    ⟨_, by rwa [List.take_append_drop], ?_⟩, ?_, ?_⟩
  · rw [List.take_append_drop, List.drop_drop, Layout.room]
    congr 1
    omega
  · rw [List.length_take]
    omega
  · rw [List.take_append_drop, Layout.room]
    omega

theorem Streams.shaped {memory : layout.Memory} {done left : List UInt8} (h : p.Streams memory done left)
    (hLayout : layout.headerSize ≤ layout.bodyCapacity) : p.Shaped := by
  obtain ⟨hBegin, hRead, hEnd⟩ := h.cursors hLayout
  obtain ⟨tail, hHolds, _⟩ := h.content
  rw [hHolds.bodyBegin] at hBegin
  rw [hHolds.bodyEnd] at hEnd
  exact ⟨hHolds.total, hHolds.bodyBegin, hHolds.encodeBegin, hHolds.bodyEnd, ⟨hBegin, hRead⟩, hEnd⟩

theorem Shaped.clearBuffer (h : p.Shaped) : p.clearBuffer.Shaped where
  total := h.total
  bodyBegin := h.bodyBegin
  encodeBegin := h.encodeBegin
  bodyEnd := h.bodyEnd
  read := ⟨Nat.le_of_eq h.bodyBegin.symm, Nat.le_refl _⟩
  write := by
    have hRead := h.read
    have hWrite := h.write
    show p.bodyBegin ≤ _
    rw [h.bodyBegin]
    omega

/-- Only `EncodeOnce` touches `mIsEncoded`. -/
theorem call_isEncoded {c : PacketCall} {answer : PacketAnswer} (h : p.call c = some (answer, p')) :
    p'.isEncoded = p.isEncoded := by
  cases c with
  | putBody data =>
      simp only [call, putBody, Option.bind_eq_bind, Option.bind_eq_some_iff, Option.some.injEq,
        Prod.mk.injEq] at h
      obtain ⟨_, ⟨_, _, rfl⟩, _, rfl⟩ := h
      rfl
  | putScalar width value =>
      simp only [call, putScalar, putBody, Option.bind_eq_bind, Option.bind_eq_some_iff,
        Option.some.injEq, Prod.mk.injEq] at h
      obtain ⟨_, ⟨_, ⟨_, _, rfl⟩, rfl⟩, _, rfl⟩ := h
      rfl
  | getBody data | getScalar data =>
      rw [call, getBodyInto] at h
      split at h
      · rename_i hGet
        cases h
        rw [getBody] at hGet
        split at hGet
        · cases hGet
        · split at hGet
          · cases hGet
          · cases hGet
            rfl
      · cases h
        rfl
      · cases h
  | getHeader | peekBody data =>
      simp only [call, Option.bind_eq_bind, Option.bind_eq_some_iff, Option.some.injEq,
        Prod.mk.injEq] at h
      obtain ⟨_, _, _, rfl⟩ := h
      rfl
  | moveBodyWritePos size | moveBodyReadPos size =>
      cases h
      rfl

/-- A call leaves the header alone. -/
theorem Shaped.call (h : p.Shaped) (hLayout : layout.headerSize ≤ layout.bodyCapacity) (c : PacketCall) :
    ∃ answer p', p.call c = some (answer, p') ∧ p'.Shaped ∧ p'.isEncoded = p.isEncoded := by
  obtain ⟨done, left, hStreams⟩ := h.streams
  obtain ⟨answer, p', _, _, hCall, hAfter⟩ := hStreams.call c
  exact ⟨answer, p', hCall, hAfter.shaped hLayout, call_isEncoded hCall⟩

theorem Shaped.writes (h : p.Shaped) (hLayout : layout.headerSize ≤ layout.bodyCapacity)
    (calls : List PacketCall) :
    ∃ p', exec use p (calls.map .call) = some p' ∧ p'.Shaped ∧ p'.isEncoded = p.isEncoded := by
  induction calls generalizing p with
  | nil => exact ⟨p, rfl, h, rfl⟩
  | cons c later ih =>
      obtain ⟨answer, next, hCall, hNext, hFlag⟩ := h.call hLayout c
      obtain ⟨p', hRest, hAfter, hSame⟩ := ih hNext
      have hUse : p.use (.call c) = some next := by rw [use, hCall]; rfl
      exact ⟨p', by rw [List.map_cons, exec, hUse]; exact hRest, hAfter, hSame.trans hFlag⟩

/-- `EncodeOnce` changes bytes and the flag. -/
theorem encodeOnce_fields {code key : UInt8} {rand : Nat} {fresh : Bool}
    (h : p.encodeOnce code key rand = some (fresh, p')) :
    p'.buffer.length = p.buffer.length ∧ p' = { p with buffer := p'.buffer, isEncoded := 1 } ∧
      (p.isEncoded ≠ 0 → p'.buffer = p.buffer) := by
  rw [encodeOnce] at h
  split at h
  · cases h
    exact ⟨rfl, rfl, fun _ => rfl⟩
  · rename_i hFirst
    simp only [Option.bind_eq_bind, Option.bind_eq_some_iff, Option.some.injEq, Prod.mk.injEq] at h
    obtain ⟨_, _, first, hFirst', _, _, second, hSecond, third, hThird, fourth, hFourth, last, hLast, _,
      rfl⟩ := h
    refine ⟨?_, rfl, fun hEncoded => absurd hEncoded hFirst⟩
    rw [writeBytes_length hLast, writeBytes_length hFourth, writeBytes_length hThird,
      writeBytes_length hSecond, writeBytes_length hFirst']

theorem Shaped.congr (h : p.Shaped) {buffer : Block} (hLength : buffer.length = p.buffer.length)
    (isEncoded : Nat) :
    Shaped ({ p with buffer := buffer, isEncoded := isEncoded } : Packet layout) :=
  ⟨hLength.trans h.total, h.bodyBegin, h.encodeBegin, h.bodyEnd, h.read, h.write⟩

/-- `EncodeOnce` always answers; the first one leaves the frame. -/
theorem Shaped.encodeOnce (h : p.Shaped) (hHeader : layout.headerSize = 5) (code key : UInt8) (rand : Nat) :
    ∃ fresh p', p.encodeOnce code key rand = some (fresh, p') ∧ p'.Shaped ∧ p'.isEncoded = 1 ∧
      (p.isEncoded = 0 → p'.wireBytes = frame code key (UInt8.ofNat (rand % 255)) p.body) := by
  obtain ⟨fresh, p', hEncode, hFrame⟩ : ∃ fresh p', p.encodeOnce code key rand = some (fresh, p') ∧
      (p.isEncoded = 0 → p'.wireBytes = frame code key (UInt8.ofNat (rand % 255)) p.body) := by
    by_cases hFirst : p.isEncoded = 0
    · obtain ⟨p', hEncode, hFrame⟩ := h.holds.encodeOnce hHeader hFirst code key rand
      exact ⟨true, p', hEncode, fun _ => hFrame⟩
    · exact ⟨false, _, by rw [Packet.encodeOnce, if_pos hFirst], fun hZero => absurd hZero hFirst⟩
  obtain ⟨hLength, hSame, _⟩ := encodeOnce_fields hEncode
  refine ⟨fresh, p', hEncode, ?_, ?_, hFrame⟩
  · rw [hSame]
    exact h.congr hLength 1
  · rw [hSame]

/-- Once encoded, the packet is not touched again. -/
theorem exec_encodeOnce {again : List PacketUse} (hEncoded : p.isEncoded = 1)
    (hAgain : ∀ u ∈ again, u.encodes = true) : exec use p again = some p := by
  induction again with
  | nil => rfl
  | cons u later ih =>
      obtain ⟨code, key, rand, rfl⟩ : ∃ code key rand, u = .encodeOnce code key rand := by
        cases u with
        | encodeOnce code key rand => exact ⟨code, key, rand, rfl⟩
        | call c => cases hAgain _ List.mem_cons_self
        | clearBuffer => cases hAgain _ List.mem_cons_self
      have hUse : p.use (.encodeOnce code key rand) = some p := by
        obtain ⟨buffer, readPos, writePos, bodyBegin, bodyEnd, encodeBegin, isEncoded⟩ := p
        obtain rfl : isEncoded = 1 := hEncoded
        rfl
      rw [exec, hUse]
      exact ih fun v hMem => hAgain v (List.mem_cons_of_mem _ hMem)

/-- What a frame in the memory of a packet gives its receiver. -/
theorem Shaped.receives {code key randKey : UInt8} {body : List UInt8} (h : p.Shaped)
    (hHeader : layout.headerSize = 5) (hFrame : p.wireBytes = frame code key randKey body)
    (hSmall : body.length < 65536) :
    readUInt16 p.wireBytes 1 = body.length ∧ p.wireBytes.getD 3 0 = randKey ∧
      ∃ decoded, p.doDecode key randKey = some (true, decoded) ∧ decoded.body = body := by
  have hHolds := h.holds
  have hLength : (p.buffer.take layout.headerSize).length = 5 := hHolds.header_length.trans hHeader
  have hRegion : (p.buffer.take layout.headerSize).drop 4 ++ p.body =
      packetEncode key randKey (calculateCheckSum body :: body) := by
    rw [← List.drop_append_of_le_length (by omega), ← hHolds.wireBytes_eq, hFrame, frame]
    exact List.drop_left' (by simp)
  obtain ⟨decoded, checkSum, plain, hPlain, hDecode, hBody, _⟩ := hHolds.doDecode hHeader key randKey
  rw [hRegion, packetDecode_packetEncode, List.cons.injEq] at hPlain
  obtain ⟨rfl, rfl⟩ := hPlain
  refine ⟨?_, ?_, decoded, by rw [hDecode]; simp, hBody⟩
  · rw [hFrame, frame, List.append_assoc ([code] ++ scalarBytes 2 body.length)]
    exact readUInt16_scalarBytes hSmall [code] _
  · rw [hFrame]
    rfl

end Uses

section Net

variable {p : Packet netLayout}

theorem Shaped.body_lt (h : p.Shaped) : p.body.length < 65536 := by
  have hWrite := h.write
  have hLength := h.holds.writePos
  have hCapacity : netLayout.bodyCapacity = 4096 := rfl
  omega

/-- A packet that was not encoded is as good as new. -/
theorem Shaped.goodAsNew (h : p.Shaped) (hFirst : p.isEncoded = 0) : p.GoodAsNew := by
  intro writes code key rand
  obtain ⟨written, hWritten, hShaped, hFlag⟩ := h.clearBuffer.writes (by decide) writes
  obtain ⟨fresh, encoded, hEncode, hAfter, _, hFrame⟩ := hShaped.encodeOnce rfl code key rand
  obtain ⟨hSize, hKey, decoded, hDecode, hBody⟩ :=
    hAfter.receives rfl (hFrame (hFlag.trans hFirst)) hShaped.body_lt
  refine ⟨written, fresh, encoded, decoded, hWritten, hEncode, ?_, hKey ▸ hDecode, hBody⟩
  rw [hSize, ← hShaped.holds.getBodySize]

/-- A packet that was encoded before keeps its old header, whatever its body is now. -/
theorem Holds.stale {written encoded : Packet netLayout} {header body tail : List UInt8} {code key : UInt8}
    {rand : Nat} {fresh : Bool} (h : Holds written header body tail) (hEncoded : written.isEncoded ≠ 0)
    (hEncode : written.encodeOnce code key rand = some (fresh, encoded)) :
    readUInt16 encoded.wireBytes 1 = readUInt16 header 1 := by
  rw [Packet.encodeOnce, if_pos hEncoded] at hEncode
  cases hEncode
  have hLength : header.length = 5 := h.header_length
  show readUInt16 written.wireBytes 1 = _
  rw [h.wireBytes_eq, readUInt16, readUInt16]
  simp only [List.getD_eq_getElem?_getD]
  rw [List.getElem?_append_left (by omega), List.getElem?_append_left (by omega)]

/-- The header of an encoded packet stays as it is, so it fits one length at most. -/
theorem Shaped.not_goodAsNew (h : p.Shaped) (hEncoded : p.isEncoded ≠ 0) : ¬p.GoodAsNew := by
  intro hGood
  have hHolds := h.clearBuffer.holds
  have hEmpty : p.clearBuffer.body = [] := by
    rw [← List.length_eq_zero_iff, ← hHolds.getBodySize]
    exact Nat.sub_self _
  rw [hEmpty] at hHolds
  obtain ⟨written, fresh, encoded, _, hRun, hEncode, hSize, _⟩ := hGood [] 0 0 0
  cases hRun
  rw [hHolds.stale hEncoded hEncode, hHolds.getBodySize] at hSize
  obtain ⟨next, hPut, hNext, hFlag⟩ := hHolds.putBody [0] (by decide)
  have hUse : p.clearBuffer.use (.call (.putBody [0])) = some next := by
    rw [use, Packet.call, hPut]
    rfl
  obtain ⟨written', fresh', encoded', _, hRun', hEncode', hSize', _⟩ := hGood [.putBody [0]] 0 0 0
  rw [List.map_singleton, exec, hUse] at hRun'
  cases hRun'
  rw [hNext.stale (hFlag.trans_ne hEncoded) hEncode', hNext.getBodySize, hSize] at hSize'
  cases hSize'

/-- A used packet is as good as new exactly if it was never encoded. -/
theorem Shaped.goodAsNew_iff (h : p.Shaped) : p.GoodAsNew ↔ p.isEncoded = 0 := by
  constructor
  · intro hGood
    by_contra hEncoded
    exact h.not_goodAsNew hEncoded hGood
  · exact h.goodAsNew

theorem Shaped.encodesOnce (h : p.Shaped) : p.EncodesOnce := by
  intro code key rand
  obtain ⟨fresh, encoded, hEncode, _, hFlag, _⟩ := h.encodeOnce rfl code key rand
  exact ⟨fresh, encoded, hEncode, fun _ hAgain => exec_encodeOnce hFlag hAgain⟩

/-- `ClearBuffer` does not undo an `EncodeOnce`. -/
theorem Shaped.use (h : p.Shaped) (u : PacketUse) : ∃ p', p.use u = some p' ∧ p'.Shaped ∧
    (p'.isEncoded = 0 ↔ p.isEncoded = 0 ∧ u.encodes = false) := by
  cases u with
  | call c =>
      obtain ⟨answer, p', hCall, hAfter, hFlag⟩ := h.call (by decide) c
      exact ⟨p', by rw [Packet.use, hCall]; rfl, hAfter, by simp [hFlag, PacketUse.encodes]⟩
  | encodeOnce code key rand =>
      obtain ⟨fresh, p', hEncode, hAfter, hFlag, _⟩ := h.encodeOnce rfl code key rand
      exact ⟨p', by rw [Packet.use, hEncode]; rfl, hAfter, by simp [hFlag, PacketUse.encodes]⟩
  | clearBuffer => exact ⟨_, rfl, h.clearBuffer, by simp [Packet.clearBuffer, PacketUse.encodes]⟩

theorem Shaped.history (h : p.Shaped) (history : List PacketUse) : ∃ p', exec Packet.use p history = some p' ∧
    p'.Shaped ∧ (p'.isEncoded = 0 ↔ p.isEncoded = 0 ∧ ∀ u ∈ history, u.encodes = false) := by
  induction history generalizing p with
  | nil => exact ⟨p, rfl, h, by simp⟩
  | cons u later ih =>
      obtain ⟨next, hUse, hNext, hFlag⟩ := h.use u
      obtain ⟨p', hRest, hAfter, hAll⟩ := ih hNext
      refine ⟨p', by rw [exec, hUse]; exact hRest, hAfter, ?_⟩
      rw [hAll, hFlag, List.forall_mem_cons, and_assoc]

/-- Whatever a packet was used for, encoding it again changes nothing; and cleared it is as good as new
exactly if its history has no `EncodeOnce`. -/
theorem reuse (memory : netLayout.Memory) (history : List PacketUse) :
    ∃ p, exec use (initial memory) history = some p ∧ p.EncodesOnce ∧
      (p.GoodAsNew ↔ ∀ u ∈ history, u.encodes = false) := by
  obtain ⟨p, hRun, hShaped, hFlag⟩ :=
    ((initial_streams (by decide) memory).shaped (by decide)).history history
  refine ⟨p, hRun, hShaped.encodesOnce, ?_⟩
  rw [hShaped.goodAsNew_iff, hFlag]
  exact and_iff_right rfl

/-- A packet is written, encoded and sent, then cleared and written again: it carries the old header. -/
theorem not_goodAsNew_of_sent : ¬ ∀ (memory : netLayout.Memory) (history : List PacketUse) (p : Packet netLayout),
    exec use (initial memory) history = some p → p.GoodAsNew := by
  intro h
  have hFresh : (initial zeroMemory).Shaped := (initial_streams (by decide) zeroMemory).shaped (by decide)
  obtain ⟨p, hRun, hShaped, hFlag⟩ := hFresh.history [.call (.putBody [1, 2, 3]), .encodeOnce 119 50 7]
  have hZero := hShaped.goodAsNew_iff.mp (h _ _ _ hRun)
  have hNever := (hFlag.mp hZero).2 _ (List.mem_cons_of_mem _ List.mem_cons_self)
  cases hNever

end Net

end Packet
end NfNetwork
