import Mathlib.Algebra.GroupWithZero.Nat
import NfNetwork.Packet.Contents

/-! The reading half of the packet template: `GetBody`, `PeekBody` and the scalars read with
them. A read past what was written throws; a copy past the destination is undefined. -/
namespace NfNetwork

open Machinery

/-- An object of `size` bytes. -/
abbrev Bytes (size : Nat) : Type := {block : Block // block.length = size}

/-- How a read ends that does not return. -/
inductive ReadStop where
  | packetReaderException
  | outOfBounds
  deriving DecidableEq, Repr

/-- A scalar from its object representation, low byte first. -/
def scalarOf : List UInt8 → Nat
  | [] => 0
  | byte :: bytes => byte.toNat + 256 * scalarOf bytes

namespace Packet

variable {layout : Layout}

/-- A copy does not change the size of its destination. -/
theorem copyBytes_length {dst src after : Block} {dstOffset srcOffset count : Nat}
    (h : copyBytes dst dstOffset src srcOffset count = some after) : after.length = dst.length := by
  rw [copyBytes, Option.bind_eq_bind, Option.bind_eq_some_iff] at h
  obtain ⟨bytes, _, hWrite⟩ := h
  exact writeBytes_length hWrite

/-- The same for the switch over the sizes. -/
theorem switchCopy_length {dst src after : Block} {offset count : Nat}
    (h : switchCopy dst offset src count = some after) : after.length = dst.length := by
  unfold switchCopy at h
  split at h
  · cases h
    rfl
  · exact copyBytes_length h
  · exact copyBytes_length h
  · rw [Option.bind_eq_bind, Option.bind_eq_some_iff] at h
    obtain ⟨middle, hFirst, hSecond⟩ := h
    rw [copyBytes_length hSecond, copyBytes_length hFirst]
  · exact copyBytes_length h
  · rw [Option.bind_eq_bind, Option.bind_eq_some_iff] at h
    obtain ⟨middle, hFirst, hSecond⟩ := h
    rw [copyBytes_length hSecond, copyBytes_length hFirst]
  · rw [Option.bind_eq_bind, Option.bind_eq_some_iff] at h
    obtain ⟨middle, hFirst, hSecond⟩ := h
    rw [copyBytes_length hSecond, copyBytes_length hFirst]
  · rw [Option.bind_eq_bind, Option.bind_eq_some_iff] at h
    obtain ⟨first, hFirst, h⟩ := h
    rw [Option.bind_eq_some_iff] at h
    obtain ⟨second, hSecond, hThird⟩ := h
    rw [copyBytes_length hThird, copyBytes_length hSecond, copyBytes_length hFirst]
  · exact copyBytes_length h
  · exact copyBytes_length h

/-- `GetBody` into an object: the object and the packet afterwards. -/
def getBody (p : Packet layout) {capacity : Nat} (data : Bytes capacity) (size : Nat) :
    Except ReadStop (Bytes capacity × Packet layout) :=
  if min (p.writePos - p.readPos) size ≠ size then .error .packetReaderException
  else match h : switchCopy data.val 0 (p.buffer.drop p.readPos) size with
    | none => .error .outOfBounds
    | some bytes =>
      .ok (⟨bytes, (switchCopy_length h).trans data.property⟩, { p with readPos := p.readPos + size })

/-- `PeekBody`: the size it returns, and the object. -/
def peekBody (p : Packet layout) (data : Block) (size : Nat) : Option (Nat × Block) := do
  let count := min (p.writePos - p.readPos) size
  let data ← switchCopy data 0 (p.buffer.drop p.readPos) count
  some (count, data)

/-- A `GetBody` that fills a local object of the given size. -/
def getField (p : Packet layout) (size : Nat) : Except ReadStop (Bytes size × Packet layout) :=
  p.getBody ⟨List.replicate size 0, List.length_replicate⟩ size

/-- The `operator>>` overloads. -/
def getScalar (p : Packet layout) (width : Nat) : Except ReadStop (Nat × Packet layout) := do
  let (data, p) ← p.getField width
  .ok (scalarOf data.val, p)

/-- The cursors of a packet with `size` bytes of body, none of them read. -/
structure Placed (p : Packet layout) (size : Nat) : Prop where
  total : p.buffer.length = layout.headerSize + layout.bodyCapacity
  bodyBegin : p.bodyBegin = layout.headerSize
  encodeBegin : p.encodeBegin = layout.headerSize - 1
  bodyEnd : p.bodyEnd = layout.bodyCapacity
  readPos : p.readPos = layout.headerSize
  writePos : p.writePos = layout.headerSize + size

/-- A packet that `Initial` has prepared has its cursors at the start of the body. -/
theorem initial_placed (memory : layout.Memory) : (initial memory).Placed 0 :=
  ⟨memory.property, rfl, rfl, rfl, rfl, rfl⟩

/-- Writing into the body moves no cursor. -/
theorem Placed.store {p after : Packet layout} {size offset : Nat} {bytes : List UInt8}
    (h : p.Placed size) (hStore : p.store offset bytes = some after) : after.Placed size := by
  rw [Packet.store, Option.bind_eq_bind, Option.bind_eq_some_iff] at hStore
  obtain ⟨buffer, hWrite, hAfter⟩ := hStore
  cases hAfter
  exact ⟨(writeBytes_length hWrite).trans h.total, h.bodyBegin, h.encodeBegin, h.bodyEnd, h.readPos,
    h.writePos⟩

/-- `MoveBodyWritePos` that goes all the way has had the room for it. -/
theorem Placed.moveBodyWritePos {p : Packet layout} (h : p.Placed 0) {size : Nat}
    (hMove : (p.moveBodyWritePos size).1 = size) :
    (p.moveBodyWritePos size).2.Placed size ∧ size ≤ layout.room := by
  change min (p.bodyEnd - p.writePos) size = size at hMove
  refine ⟨⟨h.total, h.bodyBegin, h.encodeBegin, h.bodyEnd, h.readPos, ?_⟩, ?_⟩
  · change p.writePos + min (p.bodyEnd - p.writePos) size = _
    rw [hMove, h.writePos, Nat.add_zero]
  · rw [h.bodyEnd, h.writePos] at hMove
    rw [Layout.room]
    omega

/-- Decoding works on the body in place. -/
theorem Placed.doDecode {p after : Packet layout} {size : Nat} {key randKey : UInt8} {intact : Bool}
    (h : p.Placed size) (hDecode : p.doDecode key randKey = some (intact, after)) :
    after.Placed size := by
  simp only [Packet.doDecode, Option.bind_eq_bind, Option.bind_eq_some_iff, Option.some.injEq,
    Prod.mk.injEq] at hDecode
  obtain ⟨region, _, buffer, hWrite, saved, _, body, _, _, rfl⟩ := hDecode
  exact ⟨(writeBytes_length hWrite).trans h.total, h.bodyBegin, h.encodeBegin, h.bodyEnd, h.readPos,
    h.writePos⟩

/-- A packet whose body is read up to `left`. -/
structure Unread (p : Packet layout) (done left : List UInt8) : Prop where
  holds : ∃ header tail, Holds p header (done ++ left) tail
  readPos : p.readPos = layout.headerSize + done.length

/-- All of a fresh body is still to be read. -/
theorem Placed.unread {p : Packet layout} {size : Nat} (h : p.Placed size)
    (hSize : size ≤ layout.bodyCapacity) : p.Unread [] p.body ∧ p.body.length = size := by
  have hBodySize : p.getBodySize = size := by
    rw [getBodySize, h.writePos, h.bodyBegin, Nat.add_sub_cancel_left]
  have hLength : p.body.length = size := by
    rw [body, hBodySize, h.bodyBegin, List.length_take, List.length_drop, h.total]
    omega
  refine ⟨⟨⟨p.buffer.take layout.headerSize, (p.buffer.drop layout.headerSize).drop size, ?_⟩, ?_⟩,
    hLength⟩
  · rw [List.nil_append]
    exact {
      buffer := by
        rw [body, hBodySize, h.bodyBegin, List.append_assoc, List.take_append_drop,
          List.take_append_drop]
      header_length := by
        rw [List.length_take, h.total]
        omega
      total := h.total
      bodyBegin := h.bodyBegin
      encodeBegin := h.encodeBegin
      bodyEnd := h.bodyEnd
      writePos := by rw [h.writePos, hLength] }
  · rw [h.readPos, List.length_nil, Nat.add_zero]

namespace Unread

variable {p : Packet layout} {done left : List UInt8} {capacity size : Nat} {data : Bytes capacity}

/-- The cursors are as far apart as there are bytes to be read. -/
theorem left_eq (h : p.Unread done left) : p.writePos - p.readPos = left.length := by
  obtain ⟨header, tail, hHolds⟩ := h.holds
  rw [hHolds.writePos, h.readPos, List.length_append]
  omega

/-- What `ReadPos` points at starts with the bytes left. -/
theorem source_eq (h : p.Unread done left) : ∃ tail, p.buffer.drop p.readPos = left ++ tail := by
  obtain ⟨header, tail, hHolds⟩ := h.holds
  refine ⟨tail, ?_⟩
  rw [hHolds.buffer, h.readPos, ← hHolds.header_length, ← List.append_assoc header,
    List.append_assoc _ left, ← List.length_append, List.drop_left]

/-- Reading moves the read cursor only. -/
theorem advance (h : p.Unread done left) (hSize : size ≤ left.length) :
    Packet.Unread ({ p with readPos := p.readPos + size } : Packet layout) (done ++ left.take size)
      (left.drop size) := by
  obtain ⟨header, tail, hHolds⟩ := h.holds
  refine ⟨⟨header, tail, ?_⟩, ?_⟩
  · rw [List.append_assoc done, List.take_append_drop]
    exact ⟨hHolds.buffer, hHolds.header_length, hHolds.total, hHolds.bodyBegin, hHolds.encodeBegin,
      hHolds.bodyEnd, hHolds.writePos⟩
  · change p.readPos + size = _
    rw [h.readPos, List.length_append, List.length_take, Nat.min_eq_left hSize, Nat.add_assoc]

/-- A read that asks for more than is left throws, and nothing has been copied. -/
theorem getBody_throws (h : p.Unread done left) (data : Bytes capacity)
    (hShort : left.length < size) : p.getBody data size = .error .packetReaderException := by
  rw [getBody, h.left_eq, if_pos (by omega)]

/-- A read of what is there copies it to the front of the destination. -/
theorem getBody_eq (h : p.Unread done left) (data : Bytes capacity) (hSize : size ≤ left.length)
    (hData : size ≤ capacity) :
    ∃ data', p.getBody data size = .ok (data', { p with readPos := p.readPos + size }) ∧
      data'.val = left.take size ++ data.val.drop size := by
  obtain ⟨tail, hSource⟩ := h.source_eq
  have hCopy : switchCopy data.val 0 (p.buffer.drop p.readPos) size =
      some (left.take size ++ data.val.drop size) := by
    rw [hSource, switchCopy_eq (by simp; omega) (by rw [data.property]; omega),
      List.take_append_of_le_length hSize]
    rw [writeBytes_of_le (by rw [List.length_take, data.property]; omega), List.take_zero,
      List.nil_append, List.length_take, Nat.min_eq_left hSize, Nat.zero_add]
  have hEnough : ¬ min (p.writePos - p.readPos) size ≠ size := by
    rw [h.left_eq]
    omega
  refine ⟨⟨_, (switchCopy_length hCopy).trans data.property⟩, ?_, rfl⟩
  rw [getBody, if_neg hEnough]
  split
  · rename_i hNone
    rw [hCopy] at hNone
    cases hNone
  · rename_i bytes hSome
    rw [hCopy] at hSome
    cases hSome
    rfl

/-- A copy of more bytes than the object has leaves it. -/
theorem getBody_overruns (h : p.Unread done left) (hSize : size ≤ left.length)
    (hLarge : 8 < size) (hOver : capacity < size) : p.getBody data size = .error .outOfBounds := by
  obtain ⟨tail, hSource⟩ := h.source_eq
  obtain ⟨more, rfl⟩ : ∃ more, size = more + 9 := ⟨size - 9, by omega⟩
  have hCopy : switchCopy data.val 0 (p.buffer.drop p.readPos) (more + 9) = none := by
    change copyBytes _ _ _ _ _ = none
    rw [hSource, copyBytes_eq (by simp; omega), writeBytes, if_neg]
    rw [List.drop_zero, List.length_take, List.length_append, data.property]
    omega
  have hEnough : ¬ min (p.writePos - p.readPos) (more + 9) ≠ more + 9 := by
    rw [h.left_eq]
    omega
  rw [getBody, if_neg hEnough]
  split
  · rfl
  · rename_i bytes hSome
    rw [hCopy] at hSome
    cases hSome

theorem getField_eq (h : p.Unread done left) (hSize : size ≤ left.length) :
    ∃ data, p.getField size = .ok (data, { p with readPos := p.readPos + size }) ∧
      data.val = left.take size := by
  obtain ⟨data, hGet, hData⟩ :=
    h.getBody_eq ⟨List.replicate size 0, List.length_replicate⟩ hSize (Nat.le_refl size)
  refine ⟨data, hGet, ?_⟩
  rw [hData, List.drop_eq_nil_of_le (by simp), List.append_nil]

/-- A field is the next bytes of the body. -/
theorem getField_next (h : p.Unread done left) (hSize : size ≤ left.length) :
    ∃ data p', p.getField size = .ok (data, p') ∧ data.val = left.take size ∧
      p'.Unread (done ++ left.take size) (left.drop size) := by
  obtain ⟨data, hGet, hData⟩ := h.getField_eq hSize
  exact ⟨data, _, hGet, hData, h.advance hSize⟩

/-- A scalar is the next bytes of the body, little-endian. -/
theorem getScalar_next (h : p.Unread done left) (size : Nat) (hSize : size ≤ left.length) :
    ∃ p', p.getScalar size = .ok (scalarOf (left.take size), p') ∧
      p'.Unread (done ++ left.take size) (left.drop size) := by
  obtain ⟨data, p', hGet, hData, hRest⟩ := h.getField_next hSize
  exact ⟨p', by rw [getScalar, hGet, ← hData]; rfl, hRest⟩

/-- Short of its size it throws. -/
theorem getScalar_throws (h : p.Unread done left) (hShort : left.length < size) :
    p.getScalar size = .error .packetReaderException := by
  rw [getScalar, getField, h.getBody_throws _ hShort]
  rfl

end Unread

/-- A reader of exactly `size` bytes: what it returns is in the relation to the bytes it read, and
it throws if so many are not left. -/
structure Reads {α : Type} (read : Packet layout → Except ReadStop (α × Packet layout)) (size : Nat)
    (value : List UInt8 → α → Prop) : Prop where
  returns : ∀ {p done left}, p.Unread done left → size ≤ left.length →
    ∃ a p', read p = .ok (a, p') ∧ value (left.take size) a ∧
      p'.Unread (done ++ left.take size) (left.drop size)
  throws : ∀ {p done left}, p.Unread done left → left.length < size →
    read p = .error .packetReaderException

section Reads

variable {α β : Type} {read : Packet layout → Except ReadStop (α × Packet layout)}
  {next : α → Packet layout → Except ReadStop (β × Packet layout)} {size more : Nat}
  {value : List UInt8 → α → Prop} {nextValue : α → List UInt8 → β → Prop}

/-- A field as a reader that takes its size from the front. -/
theorem reads_getField (size : Nat) :
    Reads (fun p : Packet layout => p.getField size) size fun bytes data => data.val = bytes where
  returns h hSize := by
    obtain ⟨data, p', hGet, hData, hRest⟩ := h.getField_next hSize
    exact ⟨data, p', hGet, hData, hRest⟩
  throws h hShort := h.getBody_throws _ hShort

/-- A scalar as such a reader. -/
theorem reads_getScalar (size : Nat) :
    Reads (fun p : Packet layout => p.getScalar size) size fun bytes n => n = scalarOf bytes where
  returns h hSize := by
    obtain ⟨p', hGet, hRest⟩ := h.getScalar_next size hSize
    exact ⟨_, p', hGet, rfl, hRest⟩
  throws h hShort := h.getScalar_throws hShort

/-- A reader that takes nothing. -/
theorem reads_pure (a : α) :
    Reads (fun p : Packet layout => .ok (a, p)) 0 fun bytes b => bytes = [] ∧ b = a where
  returns {p done left} h _ := ⟨a, p, rfl, ⟨rfl, rfl⟩, by simpa using h⟩
  throws _ hShort := absurd hShort (Nat.not_lt_zero _)

/-- What a reader promises of the bytes it took may be weakened. -/
theorem Reads.mono {value' : List UInt8 → α → Prop} (h : Reads read size value)
    (hValue : ∀ bytes a, bytes.length = size → value bytes a → value' bytes a) : Reads read size value' where
  returns {p done left} hUnread hSize := by
    obtain ⟨a, p', hRead, hReturned, hRest⟩ := h.returns hUnread hSize
    exact ⟨a, p', hRead, hValue _ a (by rw [List.length_take]; omega) hReturned, hRest⟩
  throws := h.throws

/-- Two readers one after the other. -/
theorem Reads.bind (h : Reads read size value) (hNext : ∀ a, Reads (next a) more (nextValue a)) :
    Reads (fun p => do
      let (a, p) ← read p
      next a p) (size + more)
      fun bytes b => ∃ a, value (bytes.take size) a ∧ nextValue a (bytes.drop size) b where
  returns {p done left} hUnread hSize := by
    obtain ⟨a, p1, hRead, hValue, hUnread1⟩ := h.returns hUnread (by omega)
    obtain ⟨b, p2, hRead2, hValue2, hUnread2⟩ :=
      (hNext a).returns hUnread1 (by rw [List.length_drop]; omega)
    refine ⟨b, p2, ?_, ⟨a, ?_, ?_⟩, ?_⟩
    · change Except.bind (read p) (fun result => next result.1 result.2) = _
      rw [hRead]
      exact hRead2
    · rwa [List.take_take, Nat.min_eq_left (Nat.le_add_right ..)]
    · rwa [List.drop_take, Nat.add_sub_cancel_left]
    · rwa [List.append_assoc, ← List.take_add, List.drop_drop] at hUnread2
  throws {p done left} hUnread hShort := by
    change Except.bind (read p) (fun result => next result.1 result.2) = _
    rcases Nat.lt_or_ge left.length size with hFirst | hFirst
    · rw [h.throws hUnread hFirst]
      rfl
    · obtain ⟨a, p1, hRead, _, hUnread1⟩ := h.returns hUnread hFirst
      rw [hRead]
      exact (hNext a).throws hUnread1 (by rw [List.length_drop]; omega)

end Reads

end Packet

/-- A scalar of some bytes has as many digits to the base 256. -/
theorem scalarOf_lt (bytes : List UInt8) : scalarOf bytes < 256 ^ bytes.length := by
  induction bytes with
  | nil => simp [scalarOf]
  | cons byte bytes ih =>
      have hByte := byte.toNat_lt
      rw [scalarOf, List.length_cons, Nat.pow_succ]
      omega

/-- Reading a scalar that was put. -/
theorem scalarOf_scalarBytes (width value : Nat) :
    scalarOf (Packet.scalarBytes width value) = value % 256 ^ width := by
  induction width generalizing value with
  | zero => simp [Packet.scalarBytes, scalarOf, Nat.mod_one]
  | succ width ih =>
      rw [Packet.scalarBytes, scalarOf, ih, Nat.pow_succ, Nat.mul_comm (256 ^ width), Nat.mod_mul]
      simp

end NfNetwork
