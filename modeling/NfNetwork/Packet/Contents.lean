import NfNetwork.Packet.Packet

/-! What a packet holds. `Holds` names the three parts of `mBuffer` and pins the
cursors to them; the writer keeps it, and the encoder and the decoder act on the
bytes from the checksum to the end of the body. -/
namespace NfNetwork

open Machinery

/-- The bytes `PutBody` can place in a fresh packet. `mBodyEnd` is counted from
the start of `mBuffer`, so this is `tBodyCapacity - tHeaderSize`. -/
def Layout.room (layout : Layout) : Nat := layout.bodyCapacity - layout.headerSize

namespace Packet

variable {layout : Layout}

/-- `mBuffer` is a header, the body written so far and unused bytes. -/
structure Holds (p : Packet layout) (header body tail : List UInt8) : Prop where
  buffer : p.buffer = header ++ body ++ tail
  header_length : header.length = layout.headerSize
  total : p.buffer.length = layout.headerSize + layout.bodyCapacity
  bodyBegin : p.bodyBegin = layout.headerSize
  encodeBegin : p.encodeBegin = layout.headerSize - 1
  bodyEnd : p.bodyEnd = layout.bodyCapacity
  writePos : p.writePos = layout.headerSize + body.length

/-- A packet that `Initial` has prepared holds an empty body. -/
theorem initial_holds (memory : layout.Memory) :
    Holds (initial memory) (memory.val.take layout.headerSize) []
      (memory.val.drop layout.headerSize) where
  buffer := by simp [initial]
  header_length := by simp [memory.property]
  total := memory.property
  bodyBegin := rfl
  encodeBegin := rfl
  bodyEnd := rfl
  writePos := rfl

namespace Holds

variable {p : Packet layout} {header body tail : List UInt8}

/-- The cursors give the size of the body. -/
theorem getBodySize (h : Holds p header body tail) : p.getBodySize = body.length := by
  rw [Packet.getBodySize, h.writePos, h.bodyBegin, Nat.add_sub_cancel_left]

/-- The packet is as long as its header and body. -/
theorem getPacketSize (h : Holds p header body tail) :
    p.getPacketSize = layout.headerSize + body.length := by
  rw [Packet.getPacketSize, h.getBodySize]

theorem body_eq (h : Holds p header body tail) : p.body = body := by
  rw [Packet.body, h.getBodySize, h.bodyBegin, h.buffer, ← h.header_length, List.append_assoc,
    List.drop_left, List.take_left]

/-- What is sent is the header and the body. -/
theorem wireBytes_eq (h : Holds p header body tail) : p.wireBytes = header ++ body := by
  rw [wireBytes, h.getPacketSize, h.buffer, ← h.header_length, ← List.length_append,
    List.take_left]

/-- The room left, as `PutBody` and `MoveBodyWritePos` compute it. -/
theorem room_eq (h : Holds p header body tail) :
    p.bodyEnd - p.writePos = layout.room - body.length := by
  rw [h.bodyEnd, h.writePos, Layout.room, Nat.sub_add_eq]

/-- Body and tail fill the capacity. -/
theorem tail_length (h : Holds p header body tail) :
    body.length + tail.length = layout.bodyCapacity := by
  have hTotal := h.total
  rw [h.buffer, List.length_append, List.length_append, h.header_length] at hTotal
  omega

end Holds

/-- A packet that its caller has filled, with all parts inside `mBuffer`. -/
def Written (p : Packet layout) : Prop := ∃ header body tail, Holds p header body tail

/-- No packet is longer than header and capacity together. -/
theorem Written.getPacketSize_le {p : Packet layout} (h : p.Written) :
    p.getPacketSize ≤ layout.headerSize + layout.bodyCapacity := by
  obtain ⟨header, body, tail, hHolds⟩ := h
  rw [hHolds.getPacketSize, ← hHolds.tail_length]
  omega

/-- A copy of bytes that exist overwrites the destination with them. -/
theorem copyBytes_eq {dst src : Block} {dstOffset srcOffset count : Nat}
    (h : srcOffset + count ≤ src.length) :
    copyBytes dst dstOffset src srcOffset count =
      writeBytes dst dstOffset ((src.drop srcOffset).take count) := by
  rw [copyBytes, readBytes_of_le h]
  rfl

/-- A new header leaves the body and the cursors. -/
theorem Holds.setHeader {p : Packet layout} {header body tail : List UInt8}
    (h : Holds p header body tail) {header' : List UInt8}
    (hHeader : header'.length = layout.headerSize) :
    ∃ p', p.setHeader header' = some p' ∧ Holds p' header' body tail := by
  have hWrite : writeBytes p.buffer 0 header' = some (header' ++ body ++ tail) := by
    rw [h.buffer, List.append_assoc header, List.append_assoc header']
    exact writeBytes_append [] header (body ++ tail) header' rfl (hHeader.trans h.header_length.symm)
  refine ⟨{ p with buffer := header' ++ body ++ tail }, ?_, ?_⟩
  · rw [Packet.setHeader, copyBytes_eq (by omega), List.drop_zero, ← hHeader, List.take_length, hWrite]
    rfl
  · exact {
      buffer := rfl
      header_length := hHeader
      total := (writeBytes_length hWrite).trans h.total
      bodyBegin := h.bodyBegin
      encodeBegin := h.encodeBegin
      bodyEnd := h.bodyEnd
      writePos := h.writePos }

/-- Two adjacent copies are one. -/
theorem copyBytes_copyBytes {src : Block} (dst : Block) (offset srcOffset first second : Nat)
    (h : srcOffset + first + second ≤ src.length) :
    ((copyBytes dst offset src srcOffset first).bind fun dst =>
      copyBytes dst (offset + first) src (srcOffset + first) second) =
      copyBytes dst offset src srcOffset (first + second) := by
  have hFirst : ((src.drop srcOffset).take first).length = first := by
    rw [List.length_take, List.length_drop]
    omega
  have hJoin := writeBytes_writeBytes dst offset ((src.drop srcOffset).take first)
    ((src.drop (srcOffset + first)).take second)
  rw [hFirst, ← List.drop_drop, ← List.take_add] at hJoin
  simp only [copyBytes_eq (show srcOffset + first ≤ src.length by omega),
    copyBytes_eq (show srcOffset + first + second ≤ src.length by omega),
    copyBytes_eq (show srcOffset + (first + second) ≤ src.length by omega),
    ← List.drop_drop, hJoin]

/-- The size switch copies `count` bytes, whichever stores it uses. -/
theorem switchCopy_eq {dst src : Block} {offset count : Nat} (hSrc : count ≤ src.length)
    (hDst : offset + count ≤ dst.length) :
    switchCopy dst offset src count = writeBytes dst offset (src.take count) := by
  have hCopy : copyBytes dst offset src 0 count = writeBytes dst offset (src.take count) := by
    rw [copyBytes_eq (by omega), List.drop_zero]
  rw [← hCopy]
  unfold switchCopy
  split
  · rw [hCopy, List.take_zero, writeBytes_of_le (by simpa using hDst)]
    simp
  · rfl
  · rfl
  · exact copyBytes_copyBytes dst offset 0 2 1 (by omega)
  · rfl
  · exact copyBytes_copyBytes dst offset 0 4 1 (by omega)
  · exact copyBytes_copyBytes dst offset 0 4 2 (by omega)
  · rw [← copyBytes_copyBytes dst offset 0 6 1 (by omega),
      ← copyBytes_copyBytes dst offset 0 4 2 (by omega), Option.bind_assoc]
    rfl
  · rfl
  · rfl

/-- `PutBody` appends to the body, as long as the room suffices. -/
theorem Holds.putBody {p : Packet layout} {header body tail : List UInt8}
    (h : Holds p header body tail) (data : List UInt8)
    (hFits : body.length + data.length ≤ layout.room) :
    ∃ p', p.putBody data data.length = some (data.length, p') ∧
      Holds p' header (body ++ data) (tail.drop data.length) ∧ p'.isEncoded = p.isEncoded := by
  have hTail := h.tail_length
  have hRoom : data.length ≤ tail.length := by
    rw [Layout.room] at hFits
    omega
  have hCount : min (p.bodyEnd - p.writePos) data.length = data.length := by
    rw [h.room_eq]
    omega
  have hBuffer : p.buffer = header ++ body ++ tail.take data.length ++ tail.drop data.length := by
    rw [h.buffer, List.append_assoc (header ++ body), List.take_append_drop]
  have hWrite : switchCopy p.buffer p.writePos data data.length =
      some (header ++ body ++ data ++ tail.drop data.length) := by
    rw [switchCopy_eq (Nat.le_refl _), List.take_length, hBuffer]
    · apply writeBytes_append
      · rw [h.writePos, List.length_append, h.header_length]
      · rw [List.length_take, Nat.min_eq_left hRoom]
    · rw [h.writePos, h.total]
      omega
  refine ⟨{ p with buffer := header ++ body ++ data ++ tail.drop data.length
                   writePos := p.writePos + data.length },
    by rw [Packet.putBody, hCount, hWrite]; rfl, ?_, rfl⟩
  exact {
    buffer := by rw [← List.append_assoc]
    header_length := h.header_length
    total := by
      have hTotal := h.total
      rw [hBuffer] at hTotal
      simp only [List.length_append, List.length_take, List.length_drop] at hTotal ⊢
      omega
    bodyBegin := h.bodyBegin
    encodeBegin := h.encodeBegin
    bodyEnd := h.bodyEnd
    writePos := by rw [h.writePos, List.length_append, Nat.add_assoc] }

@[simp] theorem scalarBytes_length (width value : Nat) :
    (scalarBytes width value).length = width := by
  induction width generalizing value with
  | zero => rfl
  | succ width ih => rw [scalarBytes, List.length_cons, ih]

/-- A scalar that fits goes behind the body. -/
theorem Holds.putScalar {p : Packet layout} {header body tail : List UInt8}
    (h : Holds p header body tail) (width value : Nat)
    (hFits : body.length + width ≤ layout.room) :
    ∃ p', p.putScalar width value = some p' ∧
      Holds p' header (body ++ scalarBytes width value) (tail.drop width) ∧
      p'.isEncoded = p.isEncoded := by
  obtain ⟨p', hPut, hHolds, hEncoded⟩ := h.putBody (scalarBytes width value) (by simpa)
  rw [scalarBytes_length] at hPut hHolds
  exact ⟨p', by rw [Packet.putScalar, hPut]; rfl, hHolds, hEncoded⟩

/-- A sequence of puts that fits leaves exactly the bytes put, in order. -/
theorem Holds.fill {p : Packet layout} {header body tail : List UInt8} {puts : List Put}
    (h : Holds p header body tail)
    (hFits : body.length + (puts.flatMap Put.bytes).length ≤ layout.room) :
    ∃ p' tail', p.fill puts = some p' ∧ Holds p' header (body ++ puts.flatMap Put.bytes) tail' ∧
      p'.isEncoded = p.isEncoded := by
  induction puts generalizing p body tail with
  | nil => exact ⟨p, tail, rfl, by simpa using h, rfl⟩
  | cons put puts ih =>
      rw [List.flatMap_cons, List.length_append] at hFits
      have hStep : ∃ next tail', p.fill (put :: puts) = next.fill puts ∧
          Holds next header (body ++ put.bytes) tail' ∧ next.isEncoded = p.isEncoded := by
        cases put with
        | body data =>
            obtain ⟨next, hPut, hHolds, hEncoded⟩ :=
              h.putBody data (by simp only [Put.bytes] at hFits; omega)
            exact ⟨next, _, by rw [Packet.fill, hPut]; rfl, hHolds, hEncoded⟩
        | scalar width value =>
            obtain ⟨next, hPut, hHolds, hEncoded⟩ :=
              h.putScalar width value
                (by simp only [Put.bytes, scalarBytes_length] at hFits; omega)
            exact ⟨next, _, by rw [Packet.fill, hPut]; rfl, hHolds, hEncoded⟩
      obtain ⟨next, tail', hFill, hHolds, hEncoded⟩ := hStep
      obtain ⟨p', tail'', hRest, hHolds', hEncoded'⟩ := ih hHolds
        (by rw [List.length_append]; omega)
      refine ⟨p', tail'', hFill.trans hRest, ?_, hEncoded'.trans hEncoded⟩
      rwa [List.flatMap_cons, ← List.append_assoc]

/-- The bytes one encoded packet puts on the wire. -/
def frame (code key randKey : UInt8) (body : List UInt8) : List UInt8 :=
  [code] ++ scalarBytes 2 body.length ++ [randKey] ++
    packetEncode key randKey (calculateCheckSum body :: body)

@[simp] theorem frame_length (code key randKey : UInt8) (body : List UInt8) :
    (frame code key randKey body).length = 5 + body.length := by
  simp [frame]
  omega

/-- The first `EncodeOnce` of a packet leaves its frame in `mBuffer`. The
checksum byte is the last header byte and the first encoded one. -/
theorem Holds.encodeOnce {p : Packet layout} {header body tail : List UInt8}
    (h : Holds p header body tail) (hHeader : layout.headerSize = 5) (hFirst : p.isEncoded = 0)
    (code key : UInt8) (rand : Nat) :
    ∃ p', p.encodeOnce code key rand = some (true, p') ∧
      p'.wireBytes = frame code key (UInt8.ofNat (rand % 255)) body := by
  obtain ⟨h0, h1, h2, h3, h4, rfl⟩ : ∃ h0 h1 h2 h3 h4, header = [h0, h1, h2, h3, h4] := by
    have hLength := h.header_length
    rw [hHeader] at hLength
    match header, hLength with
    | [h0, h1, h2, h3, h4], _ => exact ⟨h0, h1, h2, h3, h4, rfl⟩
  generalize hKey : UInt8.ofNat (rand % 255) = randKey
  generalize hCheck : calculateCheckSum body = checkSum
  have hBuffer := h.buffer
  have hBody : readBytes p.buffer 5 body.length = some body := by
    rw [hBuffer]
    exact readBytes_append [h0, h1, h2, h3, h4] body tail rfl rfl
  have hCheckSum : writeBytes p.buffer 4 [checkSum] =
      some ([h0, h1, h2, h3] ++ (checkSum :: body) ++ tail) := by
    rw [hBuffer]
    exact writeBytes_append [h0, h1, h2, h3] [h4] (body ++ tail) [checkSum] rfl rfl
  have hRegion : readBytes ([h0, h1, h2, h3] ++ (checkSum :: body) ++ tail) 4 (body.length + 1) =
      some (checkSum :: body) := readBytes_append _ _ _ rfl rfl
  have hEncode : writeBytes ([h0, h1, h2, h3] ++ (checkSum :: body) ++ tail) 4
      (packetEncode key randKey (checkSum :: body)) =
      some ([h0, h1, h2, h3] ++ packetEncode key randKey (checkSum :: body) ++ tail) :=
    writeBytes_append _ _ _ _ rfl (packetEncode_length ..)
  have hCode (rest : List UInt8) : writeBytes ([h0, h1, h2, h3] ++ rest) 0 [code] =
      some ([code, h1, h2, h3] ++ rest) :=
    writeBytes_append [] [h0] ([h1, h2, h3] ++ rest) [code] rfl rfl
  have hSize (rest : List UInt8) :
      writeBytes ([code, h1, h2, h3] ++ rest) 1 (scalarBytes 2 body.length) =
        some ([code] ++ scalarBytes 2 body.length ++ ([h3] ++ rest)) :=
    writeBytes_append [code] [h1, h2] ([h3] ++ rest) _ rfl (scalarBytes_length ..)
  have hRandKey (rest : List UInt8) :
      writeBytes ([code] ++ scalarBytes 2 body.length ++ ([h3] ++ rest)) 3 [randKey] =
        some ([code] ++ scalarBytes 2 body.length ++ [randKey] ++ rest) := by
    rw [← List.append_assoc]
    exact writeBytes_append _ [h3] rest [randKey] (by simp) rfl
  refine ⟨{ p with buffer := frame code key randKey body ++ tail, isEncoded := 1 }, ?_, ?_⟩
  · rw [Packet.encodeOnce, if_neg (by simp [hFirst]), hKey, h.getBodySize, h.bodyBegin,
      h.encodeBegin, hHeader, hBody, frame, hCheck]
    simp only [Option.bind_eq_bind, Option.bind_some, hCheck, Nat.reduceSub, hCheckSum, hRegion,
      hEncode]
    rw [List.append_assoc _ _ tail]
    simp only [hCode, hSize, hRandKey, Option.bind_some, List.append_assoc _ _ tail]
  · change (frame code key randKey body ++ tail).take (layout.headerSize + p.getBodySize) = _
    rw [h.getBodySize, hHeader, ← frame_length code key randKey body, List.take_left]

/-- A copy into a fresh packet leaves the cursors alone, so the write position
then moves by at most the room. -/
theorem store_initial (memory : layout.Memory) {offset : Nat} {bytes : List UInt8}
    (h : offset + bytes.length ≤ layout.headerSize + layout.bodyCapacity) :
    ∃ p, (initial memory).store offset bytes = some p ∧
      ∀ size, (p.moveBodyWritePos size).1 = min layout.room size := by
  rw [← memory.property] at h
  refine ⟨_, by rw [Packet.store, initial, writeBytes_of_le h]; rfl, fun size => rfl⟩

/-- Copying bytes to `GetBodyPtr()` of a fresh packet. They all land inside
`mBuffer` up to the body capacity, but the body ends at the room. -/
theorem store_body (memory : layout.Memory) {bytes : List UInt8}
    (h : bytes.length ≤ layout.bodyCapacity) :
    ∃ p, (initial memory).store (initial memory).bodyBegin bytes = some p ∧
      (p.moveBodyWritePos bytes.length).2.body = bytes.take layout.room ∧
      (p.moveBodyWritePos bytes.length).2.getBodySize = min layout.room bytes.length := by
  have hFits : layout.headerSize + bytes.length ≤ memory.val.length := by
    rw [memory.property]
    exact Nat.add_le_add_left h _
  have hFront : (memory.val.take layout.headerSize).length = layout.headerSize := by
    rw [List.length_take]
    exact Nat.min_eq_left (Nat.le_trans (Nat.le_add_right _ _) hFits)
  have hWrite : writeBytes memory.val layout.headerSize bytes = _ := writeBytes_of_le hFits
  generalize hBuffer : memory.val.take layout.headerSize ++ bytes ++
    memory.val.drop (layout.headerSize + bytes.length) = buffer at hWrite
  refine ⟨{ initial memory with buffer := buffer }, ?_, ?_, Nat.add_sub_cancel_left ..⟩
  · rw [Packet.store]
    change (writeBytes memory.val layout.headerSize bytes).bind _ = _
    rw [hWrite]
    rfl
  · change (buffer.drop layout.headerSize).take
      (layout.headerSize + min layout.room bytes.length - layout.headerSize) = _
    rw [Nat.add_sub_cancel_left, ← hBuffer, List.append_assoc, List.drop_left' hFront,
      List.take_append_of_le_length (Nat.min_le_right _ _), ← List.take_eq_take_min]

/-- A copy to `GetBodyPtr()` past the capacity leaves `mBuffer`. -/
theorem store_body_eq_none (memory : layout.Memory) {bytes : List UInt8}
    (h : layout.bodyCapacity < bytes.length) :
    (initial memory).store (initial memory).bodyBegin bytes = none := by
  have hOver : ¬layout.headerSize + bytes.length ≤ memory.val.length := by
    rw [memory.property]
    exact Nat.not_le.mpr (Nat.add_lt_add_left h _)
  rw [Packet.store]
  change (writeBytes memory.val layout.headerSize bytes).bind _ = _
  rw [writeBytes, if_neg hOver]
  rfl

/-- Copying a whole frame to `GetHeaderPtr()` of a fresh packet and moving the
write position past it makes the frame's bytes the packet's contents. -/
theorem store_header_holds (memory : layout.Memory) {bytes : List UInt8} {size : Nat}
    (hBytes : bytes.length = layout.headerSize + size) (hRoom : size ≤ layout.room) :
    ∃ p p', (initial memory).store 0 bytes = some p ∧ p.moveBodyWritePos size = (size, p') ∧
      Holds p' (bytes.take layout.headerSize) (bytes.drop layout.headerSize)
        (memory.val.drop bytes.length) := by
  have hFits : bytes.length ≤ memory.val.length := by
    rw [hBytes, memory.property]
    exact Nat.add_le_add_left (Nat.le_trans hRoom (Nat.sub_le _ _)) _
  have hWrite : writeBytes memory.val 0 bytes = some (bytes ++ memory.val.drop bytes.length) := by
    rw [writeBytes_of_le (by simpa using hFits)]
    simp
  have hMove : min ((initial memory).bodyEnd - (initial memory).writePos) size = size :=
    Nat.min_eq_right hRoom
  refine ⟨{ initial memory with buffer := bytes ++ memory.val.drop bytes.length },
    { initial memory with buffer := bytes ++ memory.val.drop bytes.length
                          writePos := layout.headerSize + size },
    by rw [Packet.store, initial, hWrite]; rfl, by simp only [moveBodyWritePos, hMove]; rfl, ?_⟩
  exact {
    buffer := by rw [List.take_append_drop]
    header_length := by
      rw [List.length_take, hBytes]
      omega
    total := (writeBytes_length hWrite).trans memory.property
    bodyBegin := rfl
    encodeBegin := rfl
    bodyEnd := rfl
    writePos := by
      rw [List.length_drop, hBytes, Nat.add_sub_cancel_left] }

/-- `DoDecode` recovers the bytes from the checksum on and compares the
checksum with that of the rest, which becomes the body. -/
theorem Holds.doDecode {p : Packet layout} {header body tail : List UInt8}
    (h : Holds p header body tail) (hHeader : layout.headerSize = 5) (key randKey : UInt8) :
    ∃ p' checkSum plain, packetDecode key randKey (header.drop 4 ++ body) = checkSum :: plain ∧
      p.doDecode key randKey = some (decide (checkSum = calculateCheckSum plain), p') ∧
      p'.body = plain ∧ p'.getBodySize = body.length := by
  obtain ⟨h0, h1, h2, h3, h4, rfl⟩ : ∃ h0 h1 h2 h3 h4, header = [h0, h1, h2, h3, h4] := by
    have hLength := h.header_length
    rw [hHeader] at hLength
    match header, hLength with
    | [h0, h1, h2, h3, h4], _ => exact ⟨h0, h1, h2, h3, h4, rfl⟩
  obtain ⟨checkSum, plain, hPlain, hLength⟩ : ∃ checkSum plain,
      packetDecode key randKey (h4 :: body) = checkSum :: plain ∧ plain.length = body.length := by
    have hLength := packetDecode_length key randKey (h4 :: body)
    match packetDecode key randKey (h4 :: body), hLength with
    | checkSum :: plain, hLength => exact ⟨checkSum, plain, rfl, by simpa using hLength⟩
  have hRegion : readBytes p.buffer 4 (body.length + 1) = some (h4 :: body) := by
    rw [h.buffer]
    exact readBytes_append [h0, h1, h2, h3] (h4 :: body) tail rfl rfl
  have hWrite : writeBytes p.buffer 4 (checkSum :: plain) =
      some ([h0, h1, h2, h3] ++ (checkSum :: plain) ++ tail) := by
    rw [h.buffer]
    exact writeBytes_append [h0, h1, h2, h3] (h4 :: body) tail _ rfl (by simp [hLength])
  have hSaved : readBytes ([h0, h1, h2, h3] ++ (checkSum :: plain) ++ tail) 4 1 =
      some [checkSum] := by
    rw [List.append_assoc]
    exact readBytes_append [h0, h1, h2, h3] [checkSum] (plain ++ tail) rfl rfl
  have hBody : readBytes ([h0, h1, h2, h3] ++ (checkSum :: plain) ++ tail) 5 body.length =
      some plain := readBytes_append [h0, h1, h2, h3, checkSum] plain tail rfl hLength.symm
  refine ⟨{ p with buffer := [h0, h1, h2, h3] ++ (checkSum :: plain) ++ tail }, checkSum, plain,
    hPlain, ?_, ?_, h.getBodySize⟩
  · simp only [Packet.doDecode, h.getBodySize, h.encodeBegin, h.bodyBegin, hHeader, Nat.reduceSub,
      hRegion, Option.bind_eq_bind, Option.bind_some, hPlain, hWrite, hSaved, hBody,
      List.cons.injEq, and_true]
  · change (([h0, h1, h2, h3] ++ (checkSum :: plain) ++ tail).drop p.bodyBegin).take
      p.getBodySize = plain
    rw [h.getBodySize, h.bodyBegin, hHeader, ← hLength]
    exact List.take_left

end Packet
end NfNetwork
